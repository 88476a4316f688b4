import OpenCore.DataPatcher
import OpenCore.KextSymbols
import OpenCore.MachoSymbols
import OpenCore.PlacedBytes

/-!
`PatcherApplyGenericPatch`: a patch of a kext or kernel, from a base symbol on or from the
Mach-O header on. What the symbol comes to is an offset in the container of the file, while
the size that is left counts from the header of the inner file.
-/

namespace OpenCore.KextPatcher

open Base AddressSpace ByteBuffer MachoLookup MachoWindows MachoSymbols
open KextSymbols (AsciiString)
open PlacedBytes (writeBytes)

/-- `PATCHER_CONTEXT`: the file with its symbol information if it has any, where the inner
file lies in it, and what the KXLD state gives for a name. -/
structure PatcherContext extends SymbolFile where
  tables : Option Symtabs
  headerOffset : Nat
  innerSize : Nat
  kxldSolveSymbol : Option (AsciiString → Nat)
  innerFits : headerOffset + innerSize ≤ fileSize

structure GenericPatch where
  base : Option AsciiString
  find : Option Bytes
  mask : Option Bytes
  replace : Bytes
  replaceMask : Option Bytes
  size : Nat
  count : Nat
  skip : Nat
  limit : Nat
  sizeFits : size < u32
  findSize : ∀ bytes ∈ find, bytes.length = size
  maskSize : ∀ bytes ∈ mask, bytes.length = size
  replaceSize : replace.length = size
  replaceMaskSize : ∀ bytes ∈ replaceMask, bytes.length = size

section Symbols
variable (ctx : PatcherContext)

def symbolByIndex (index : Nat) : Option Nat :=
  ctx.tables.bind fun tables => machoGetSymbolByIndex ctx.toSymbolFile tables index

/-- `AsciiStrCmp (Name, SymbolName) == 0`, from a character of the name on. -/
def sameName (memory : Memory) : List UInt8 → Nat → Bool
  | [], place => memory place == 0
  | char :: rest, place => memory place == char && sameName memory rest (place + 1)

def hasName (name : AsciiString) (symbol : Nat) : Bool :=
  match ctx.tables.bind fun tables => machoGetSymbolName ctx.toSymbolFile tables symbol with
  | none => false
  | some symbolName => sameName ctx.memory name.chars symbolName

def readSymbol (symbol : Nat) : Symbol where
  sect := (ctx.memory (symbol + 5)).toNat
  value := symbolValue ctx.toSymbolFile symbol
  sectFits := (ctx.memory (symbol + 5)).toNat_lt

/-- The address of a symbol from the KXLD state, which is used where there are no symbols. -/
def kxldOffset (name : AsciiString) : Except EfiStatus (Nat × Nat) :=
  match ctx.kxldSolveSymbol with
  | none => .error .notFound
  | some solve =>
    if solve name = 0 then .error .notFound
    else
      match internalMachoSymbolGetDirectFileOffset ctx.toLookup (solve name) with
      | none => .error .notFound
      | some window => .ok (window.offset, solve name)

/-- The loop of `PatcherGetSymbolAddressValue`, with the turns left: the offset of the
symbol in the file and its address. -/
def symbolAddressFrom (name : AsciiString) : Nat → Nat → Except EfiStatus (Nat × Nat)
  | 0, _ => .error .notFound
  | turns + 1, index =>
    match symbolByIndex ctx index with
    | none => if index = 0 then kxldOffset ctx name else .error .notFound
    | some symbol =>
      if hasName ctx name symbol then
        match machoSymbolGetFileOffset ctx.toLookup (readSymbol ctx symbol) with
        | none => .error .invalidParameter
        | some window => .ok (window.offset, symbolValue ctx.toSymbolFile symbol)
      else symbolAddressFrom name turns (index + 1)

def symbolCount : Nat :=
  match ctx.tables with
  | none => 0
  | some tables => tables.symtab.numSymbols

def patcherGetSymbolAddressValue (name : AsciiString) : Except EfiStatus (Nat × Nat) :=
  symbolAddressFrom ctx name (symbolCount ctx + 1) 0

end Symbols

section Apply
variable (ctx : PatcherContext) (patch : GenericPatch)

def patternOf (find : Bytes) (given : patch.find = some find) : DataPatcher.Patch where
  pattern := find
  patternMask := patch.mask
  replace := patch.replace
  replaceMask := patch.replaceMask
  small := by
    rw [patch.findSize find given]
    exact patch.sizeFits
  patternMaskSize := by
    intro mask member
    rw [patch.maskSize mask member, patch.findSize find given]
  replaceSize := by rw [patch.replaceSize, patch.findSize find given]
  replaceMaskSize := by
    intro mask member
    rw [patch.replaceMaskSize mask member, patch.findSize find given]

def bytesAt (memory : Memory) (address size : Nat) : Bytes :=
  (List.range size).map fun index => memory (address + index)

/-- How a patch ends: the bytes that it may work on, as `Base` and `Size` give them, and
the memory it leaves. -/
structure Outcome where
  status : EfiStatus
  data : Option Window
  memory : Memory

/-- `PatcherApplyGenericPatch` once `Base` is known as an offset in the file. None is an
access of `ApplyPatch` outside its data. -/
def applyFrom (base size : Nat) : Option Outcome :=
  let address := ctx.fileData + base
  match given : patch.find with
  | none =>
    if size < patch.size then some ⟨.notFound, some ⟨base, size⟩, ctx.memory⟩
    else
      some ⟨.success, some ⟨base, size⟩, writeBytes ctx.memory address patch.replace⟩
  | some find =>
    let limited := if patch.limit > 0 ∧ patch.limit < size then patch.limit else size
    match DataPatcher.applyPatch (patternOf patch find given)
        (bytesAt ctx.memory address limited) patch.count patch.skip with
    | none => none
    | some (replaceCount, bytes) => some {
        status := if replaceCount > 0 then .success else .notFound
        data := some ⟨base, size⟩
        memory := writeBytes ctx.memory address bytes }

def patcherApplyGenericPatch : Option Outcome :=
  match patch.base with
  | none => applyFrom ctx patch ctx.headerOffset ctx.innerSize
  | some name =>
    match patcherGetSymbolAddressValue ctx name with
    | .error status => some ⟨status, none, ctx.memory⟩
    | .ok (offset, _) =>
      let distance := wrapSub u32 offset ctx.headerOffset
      applyFrom ctx patch offset (wrapSub u32 ctx.innerSize distance)

end Apply

section Lookup
variable (ctx : PatcherContext) (name : AsciiString)

def Passed (index : Nat) : Prop :=
  ∀ earlier < index, ∃ other, symbolByIndex ctx earlier = some other ∧
    hasName ctx name other = false

inductive BaseAt : Nat → Prop where
  | symbol {index symbol : Nat} {window : Window} (passed : Passed ctx name index)
      (found : symbolByIndex ctx index = some symbol)
      (named : hasName ctx name symbol = true)
      (placed : machoSymbolGetFileOffset ctx.toLookup (readSymbol ctx symbol) =
        some window) :
      BaseAt window.offset
  | kxld {solve : AsciiString → Nat} {window : Window} (empty : symbolByIndex ctx 0 = none)
      (state : ctx.kxldSolveSymbol = some solve) (solved : solve name ≠ 0)
      (placed : internalMachoSymbolGetDirectFileOffset ctx.toLookup (solve name) =
        some window) :
      BaseAt window.offset

variable {ctx name}

theorem kxldOffset_baseAt {offset value : Nat} (empty : symbolByIndex ctx 0 = none)
    (found : kxldOffset ctx name = .ok (offset, value)) : BaseAt ctx name offset := by
  rw [kxldOffset] at found
  split at found
  · cases found
  rename_i solve state
  split at found
  · cases found
  rename_i solved
  split at found
  · cases found
  rename_i window placed
  cases found
  exact BaseAt.kxld empty state solved placed

theorem symbolAddressFrom_baseAt {turns index offset value : Nat} (passed : Passed ctx name index)
    (found : symbolAddressFrom ctx name turns index = .ok (offset, value)) :
    BaseAt ctx name offset := by
  induction turns generalizing index with
  | zero => cases found
  | succ turns ih =>
    rw [symbolAddressFrom] at found
    split at found
    · rename_i missing
      split at found
      · rename_i first
        subst first
        exact kxldOffset_baseAt missing found
      · cases found
    · rename_i symbol here
      split at found
      · rename_i named
        split at found
        · cases found
        · rename_i window placed
          cases found
          exact BaseAt.symbol passed here named placed
      · rename_i unnamed
        apply ih _ found
        intro earlier bound
        rcases Nat.lt_succ_iff_lt_or_eq.mp bound with before | rfl
        · exact passed earlier before
        · exact ⟨symbol, here, Bool.eq_false_iff.mpr unnamed⟩

theorem symbolAddressFrom_symbol {turns index target symbol : Nat} {window : Window}
    (passed : Passed ctx name target) (found : symbolByIndex ctx target = some symbol)
    (named : hasName ctx name symbol = true)
    (placed : machoSymbolGetFileOffset ctx.toLookup (readSymbol ctx symbol) = some window)
    (below : index ≤ target) (enough : target < index + turns) :
    symbolAddressFrom ctx name turns index =
      .ok (window.offset, symbolValue ctx.toSymbolFile symbol) := by
  induction turns generalizing index with
  | zero => omega
  | succ turns ih =>
    rw [symbolAddressFrom]
    rcases Nat.lt_or_eq_of_le below with before | rfl
    · obtain ⟨other, here, unnamed⟩ := passed index before
      simp only [here, unnamed]
      exact ih (by omega) (by omega)
    · simp only [found, named, if_true, placed]

theorem symbolByIndex_lt {index symbol : Nat} (found : symbolByIndex ctx index = some symbol) :
    index < symbolCount ctx := by
  rw [symbolByIndex] at found
  obtain ⟨tables, given, indexed⟩ := Option.bind_eq_some_iff.mp found
  rw [machoGetSymbolByIndex] at indexed
  split at indexed
  · rename_i bound
    simpa only [symbolCount, given] using bound
  · cases indexed

theorem baseAt_iff {offset : Nat} : BaseAt ctx name offset ↔
    ∃ value, patcherGetSymbolAddressValue ctx name = .ok (offset, value) := by
  constructor
  · intro base
    cases base with
    | symbol passed found named placed =>
      have bound := symbolByIndex_lt found
      exact ⟨_, symbolAddressFrom_symbol passed found named placed (Nat.zero_le _) (by omega)⟩
    | @kxld solve window empty state solved placed =>
      refine ⟨solve name, ?_⟩
      rw [patcherGetSymbolAddressValue, symbolAddressFrom]
      simp only [empty, if_true, kxldOffset, state, solved, if_false, placed]
  · rintro ⟨value, found⟩
    exact symbolAddressFrom_baseAt (fun earlier bound => absurd bound (Nat.not_lt_zero _)) found

theorem BaseAt.fits {offset : Nat} (base : BaseAt ctx name offset) : offset < u32 := by
  cases base with
  | symbol passed found named placed => exact machoSymbolGetFileOffset_lt placed
  | kxld empty state solved placed => exact direct_lt placed

end Lookup

section Containment

theorem writeBytes_outside {memory : Memory} {address place : Nat} {bytes : Bytes}
    (changed : writeBytes memory address bytes place ≠ memory place) :
    address ≤ place ∧ place < address + bytes.length := by
  rw [writeBytes] at changed
  split at changed
  · assumption
  · exact absurd rfl changed

theorem length_bytesAt (memory : Memory) (address size : Nat) :
    (bytesAt memory address size).length = size := by
  rw [bytesAt, List.length_map, List.length_range]

theorem applyFrom_inside (ctx : PatcherContext) (patch : GenericPatch) (base : Nat) {size : Nat}
    (fits : size < u32) :
    ∃ outcome, applyFrom ctx patch base size = some outcome ∧ outcome.data = some ⟨base, size⟩ ∧
      ∀ place, outcome.memory place ≠ ctx.memory place →
        ctx.fileData + base ≤ place ∧ place < ctx.fileData + base + size := by
  unfold applyFrom
  dsimp only
  split
  · split
    · exact ⟨_, rfl, rfl, fun place changed => absurd rfl changed⟩
    · rename_i enough
      refine ⟨_, rfl, rfl, fun place changed => ?_⟩
      have inside := writeBytes_outside changed
      rw [patch.replaceSize] at inside
      omega
  · rename_i find given
    generalize bounded :
      (if patch.limit > 0 ∧ patch.limit < size then patch.limit else size) = limited
    have smaller : limited ≤ size := by
      rw [← bounded]
      split
      · rename_i both
        exact Nat.le_of_lt both.2
      · exact Nat.le_refl size
    have small : (bytesAt ctx.memory (ctx.fileData + base) limited).length < u32 := by
      rw [length_bytesAt]
      omega
    rw [DataPatcher.applyPatch_eq _ small]
    refine ⟨_, rfl, rfl, fun place changed => ?_⟩
    have inside := writeBytes_outside changed
    rw [(DataPatcher.greedy_replaced _ _ _ _).length, length_bytesAt] at inside
    omega

structure Contained (ctx : PatcherContext) (outcome : Outcome) : Prop where
  data : ∀ data ∈ outcome.data, ctx.headerOffset ≤ data.offset ∧
    data.offset + data.maxSize ≤ ctx.headerOffset + ctx.innerSize
  changes : ∀ place, outcome.memory place ≠ ctx.memory place →
    ctx.fileData + ctx.headerOffset ≤ place ∧
      place < ctx.fileData + ctx.headerOffset + ctx.innerSize

theorem applyFrom_contained (ctx : PatcherContext) (patch : GenericPatch) (base : Nat)
    {size : Nat} (fits : size < u32) :
    ∃ outcome, applyFrom ctx patch base size = some outcome ∧
      (Contained ctx outcome ↔ ctx.headerOffset ≤ base ∧
        base + size ≤ ctx.headerOffset + ctx.innerSize) := by
  obtain ⟨outcome, ran, data, changes⟩ := applyFrom_inside ctx patch base fits
  refine ⟨outcome, ran, ?_⟩
  constructor
  · intro contained
    exact contained.data ⟨base, size⟩ data
  · rintro ⟨lower, upper⟩
    constructor
    · intro window member
      cases Option.some.inj (data.symm.trans member)
      exact ⟨lower, upper⟩
    · intro place changed
      have inside := changes place changed
      omega

theorem remaining_inside_iff {header inner offset : Nat} (fits : header + inner < u32)
    (offsetFits : offset < u32) :
    (header ≤ offset ∧ offset + wrapSub u32 inner (wrapSub u32 offset header) ≤ header + inner) ↔
    header ≤ offset ∧ offset ≤ header + inner := by
  apply and_congr_right
  intro lower
  rw [wrapSub_of_le lower offsetFits,
    wrapSub_eq (show inner < u32 by omega) (show offset - header < u32 by omega)]
  split <;> omega

/-- The distance of the base from the header is not compared with the size of the inner file. -/
theorem patcherApplyGenericPatch_contained (ctx : PatcherContext) (patch : GenericPatch) :
    ∃ outcome, patcherApplyGenericPatch ctx patch = some outcome ∧
      (Contained ctx outcome ↔
        ∀ name ∈ patch.base, ∀ offset, BaseAt ctx name offset →
          ctx.headerOffset ≤ offset ∧ offset ≤ ctx.headerOffset + ctx.innerSize) := by
  have fits : ctx.headerOffset + ctx.innerSize < u32 :=
    Nat.lt_of_le_of_lt ctx.innerFits ctx.fileSizeFits
  unfold patcherApplyGenericPatch
  cases given : patch.base with
  | none =>
    -- Without a base symbol the patch may work on the whole inner file.
    obtain ⟨outcome, ran, contained⟩ := applyFrom_contained ctx patch ctx.headerOffset
      (show ctx.innerSize < u32 by omega)
    refine ⟨outcome, ran, contained.trans ?_⟩
    simp
  | some name =>
    simp only [Option.mem_some_iff, forall_eq']
    cases found : patcherGetSymbolAddressValue ctx name with
    | error status =>
      refine ⟨_, rfl, ?_⟩
      constructor
      · intro _ offset base
        obtain ⟨value, other⟩ := baseAt_iff.mp base
        rw [found] at other
        cases other
      · intro _
        exact ⟨by simp, fun place changed => absurd rfl changed⟩
    | ok place =>
      obtain ⟨offset, value⟩ := place
      have base : BaseAt ctx name offset := baseAt_iff.mpr ⟨value, found⟩
      -- A name has one base, so the condition is about this offset alone.
      have only : ∀ other, BaseAt ctx name other → other = offset := by
        intro other same
        obtain ⟨otherValue, otherFound⟩ := baseAt_iff.mp same
        rw [found] at otherFound
        cases otherFound
        rfl
      obtain ⟨outcome, ran, contained⟩ := applyFrom_contained ctx patch offset
        (show wrapSub u32 ctx.innerSize (wrapSub u32 offset ctx.headerOffset) < u32 from
          Nat.mod_lt _ (by decide))
      refine ⟨outcome, ran, contained.trans ((remaining_inside_iff fits base.fits).trans ?_)⟩
      constructor
      · intro inside other same
        rw [only other same]
        exact inside
      · intro inside
        exact inside offset base

/-- A file of one page whose only segment takes two pages in memory; a symbol in the second
page. -/
def bssContext : PatcherContext where
  arch := .mach64
  fileSize := 0x1000
  segments := [⟨0, 0x2000, 0, 0x1000, []⟩]
  fileSizeFits := page_lt_u32
  segmentsInside := by decide
  addressesFit := by decide
  sectionsFit := by decide
  memory := fun place =>
    [0, 0, 0, 0, 0, 15, 1, 0, 0, 0, 0x18, 0, 0, 0, 0, 0, 0, 0x62, 0].getD (place - 0x100FF) 0
  fileData := 0x10000
  tables := some ⟨⟨0, 24, 0x100, 1, 0x110, 2⟩, none, 0x10100, 0x10110, null, null⟩
  headerOffset := 0
  innerSize := 0x1000
  kxldSolveSymbol := none
  innerFits := by decide

def bssPatch : GenericPatch where
  base := some ⟨[0x62], by simp, by decide⟩
  find := none
  mask := none
  replace := [0xAA]
  replaceMask := none
  size := 1
  count := 0
  skip := 0
  limit := 0
  sizeFits := by decide
  findSize := by simp
  maskSize := by simp
  replaceSize := rfl
  replaceMaskSize := by simp

theorem patcherApplyGenericPatch_contained_bss :
    ∃ outcome, patcherApplyGenericPatch bssContext bssPatch = some outcome ∧
      outcome.status = .success ∧ outcome.data = some ⟨0x1800, 0xFFFFF800⟩ ∧
      outcome.memory (bssContext.fileData + 0x1800) ≠
        bssContext.memory (bssContext.fileData + 0x1800) ∧
      ¬Contained bssContext outcome := by
  refine ⟨_, rfl, by decide, by decide, by decide, ?_⟩
  intro contained
  have changed := contained.changes (bssContext.fileData + 0x1800) (by decide)
  exact absurd changed.2 (by decide)

end Containment

end OpenCore.KextPatcher
