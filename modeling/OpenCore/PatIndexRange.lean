import OpenCore.PageEntries

/-!
`OcSetPatIndexForAddressRange`: the entries that map a range of addresses get an index into
the page attribute table. The loop goes on by the size of the page it has set.
-/

namespace OpenCore.PatIndexRange

open Base TableTree VirtualMemory PageEntries

section Source

def withBit (position value word : Nat) : Nat :=
  word - word / position % 2 * position + value % 2 * position

def withPatIndex (patBit pat entry : Nat) : Nat :=
  withBit patBit (pat / 4) (withBit 16 (pat / 2) (withBit 8 pat entry))

/-- `OcGetSetPageTableInfoForAddress` with `SetPat`: the physical address, the level and the new
memory. There is no result for `EFI_NO_MAPPING`. -/
def ocSetPageTableInfoForAddress (memory : Memory) (pageTable virtualAddr pat : Nat) :
    Option (Nat × Nat × Memory) :=
  let pml4 := memory pageTable (pml4Offset virtualAddr)
  if !present pml4 then none
  else
    let pdp := pml4 &&& paging4KAddressMask64
    let pdpe := memory pdp (pdpOffset virtualAddr)
    if !present pdpe then none
    else if largePage pdpe then
      some ((pdpe &&& paging1GAddressMask64) + virtualAddr % 0x40000000, 1,
        memory.set pdp (pdpOffset virtualAddr) (withPatIndex 0x1000 pat pdpe))
    else
      let pd := pdpe &&& paging4KAddressMask64
      let pde := memory pd (pdOffset virtualAddr)
      if !present pde then none
      else if largePage pde then
        some ((pde &&& paging2MAddressMask64) + virtualAddr % 0x200000, 2,
          memory.set pd (pdOffset virtualAddr) (withPatIndex 0x1000 pat pde))
      else
        let pt := pde &&& paging4KAddressMask64
        let pte := memory pt (ptOffset virtualAddr)
        if !present pte then none
        else
          some ((pte &&& paging4KAddressMask64) + virtualAddr % 0x1000, 4,
            memory.set pt (ptOffset virtualAddr) (withPatIndex 0x80 pat pte))

inductive SetPatStatus where
  | success
  | invalidParameter
  | noMapping
  | unsupported
  deriving DecidableEq

structure PatRun where
  status : SetPatStatus
  memory : Memory
  virtualAddr : Nat

def levelSize : Nat → Option Nat
  | 1 => some base1GB
  | 2 => some base2MB
  | 4 => some base4KB
  | _ => none

def setPatLoop (pageTable endAddr pat : Nat) : Nat → Memory → Nat → Option PatRun
  | 0, _, _ => none
  | fuel + 1, memory, virtualAddr =>
    match ocSetPageTableInfoForAddress memory pageTable virtualAddr pat with
    | none => some ⟨.noMapping, memory, virtualAddr⟩
    | some (physicalAddr, level, next) =>
      if virtualAddr ≠ physicalAddr then some ⟨.unsupported, next, virtualAddr⟩
      else
        match levelSize level with
        | none => some ⟨.unsupported, next, virtualAddr⟩
        | some size =>
          if (virtualAddr + size) % u64 < endAddr then
            setPatLoop pageTable endAddr pat fuel next ((virtualAddr + size) % u64)
          else some ⟨.success, next, virtualAddr⟩

def ocSetPatIndexForAddressRange (fuel : Nat) (memory : Memory)
    (pageTable virtualAddr length pat : Nat) : Option PatRun :=
  match baseOverflowAdd u64 virtualAddr length with
  | none => some ⟨.invalidParameter, memory, virtualAddr⟩
  | some endAddr => setPatLoop pageTable endAddr pat fuel memory virtualAddr

end Source

section Words
variable {position value word other pat entry : Nat}

theorem withBit_eq : withBit position value word =
    position * (word / position - word / position % 2 + value % 2) + word % position := by
  have split := Nat.div_add_mod word position
  have low : word / position % 2 ≤ word / position := Nat.mod_le _ _
  rw [withBit, mul_comm (word / position % 2), mul_comm (value % 2), mul_add, Nat.mul_sub]
  have bound := Nat.mul_le_mul_left position low
  omega

theorem withBit_div (positive : 0 < position) : withBit position value word / position =
    word / position - word / position % 2 + value % 2 := by
  rw [withBit_eq, Nat.mul_add_div positive, Nat.div_eq_of_lt (Nat.mod_lt _ positive), add_zero]

theorem withBit_here (positive : 0 < position) :
    withBit position value word / position % 2 = value % 2 := by
  rw [withBit_div positive]
  omega

theorem withBit_idle (same : word / position % 2 = value % 2) :
    withBit position value word = word := by
  have split := Nat.div_add_mod word position
  rw [withBit_eq, ← same, Nat.sub_add_cancel (Nat.mod_le _ _), split]

theorem withBit_above (positive : 0 < position) (above : position * 2 ∣ other) :
    withBit position value word / other = word / other := by
  obtain ⟨factor, rfl⟩ := above
  have half : withBit position value word / position / 2 = word / position / 2 := by
    rw [withBit_div positive]
    generalize word / position = whole
    omega
  have spread : ∀ total : Nat, total / (position * 2 * factor) = total / position / 2 / factor := by
    intro total
    rw [Nat.div_div_eq_div_mul, Nat.div_div_eq_div_mul, mul_assoc]
  rw [spread, spread, half]

theorem withBit_below (below : other * 2 ∣ position) :
    withBit position value word / other % 2 = word / other % 2 := by
  rw [← Nat.mod_mul_right_div_self, ← Nat.mod_mul_right_div_self, ← Nat.mod_mod_of_dvd _ below,
    withBit_eq, Nat.mul_add_mod, Nat.mod_mod, Nat.mod_mod_of_dvd _ below]

def patBit (level : Nat) : Nat := if level = 0 then 0x80 else 0x1000

structure Indexed (position pat old new : Nat) : Prop where
  present : present new = present old
  index : patIndex new position = pat % 8
  idle : patIndex old position = pat % 8 → new = old
  address : new / 0x2000 = old / 0x2000

theorem patIndex_eq_iff : patIndex entry position = pat % 8 ↔ entry / 8 % 2 = pat % 2 ∧
    entry / 16 % 2 = pat / 2 % 2 ∧ entry / position % 2 = pat / 4 % 2 := by
  have first := Nat.mod_lt (entry / 8) Nat.two_pos
  have second := Nat.mod_lt (entry / 16) Nat.two_pos
  have last := Nat.mod_lt (entry / position) Nat.two_pos
  unfold patIndex
  generalize entry / 8 % 2 = bit at *
  generalize entry / 16 % 2 = next at *
  generalize entry / position % 2 = final at *
  omega

theorem withPatIndex_eq (positive : 0 < position) (apart : 32 ∣ position)
    (inside : position * 2 ∣ 0x2000) :
    Indexed position pat entry (withPatIndex position pat entry) := by
  have eight : 8 * 2 ∣ position := Nat.dvd_trans (by decide) apart
  refine ⟨?_, ?_, ?_, ?_⟩
  · have lowest : ∀ value : Nat, value % 2 = value / 1 % 2 := fun value => by rw [Nat.div_one]
    rw [Bool.eq_iff_iff, present_iff, present_iff, lowest, lowest entry, withPatIndex,
      withBit_below (Nat.dvd_trans (by decide) apart), withBit_below (by decide),
      withBit_below (by decide)]
  · rw [patIndex_eq_iff, withPatIndex]
    refine ⟨?_, ?_, withBit_here positive⟩
    · rw [withBit_below eight, withBit_below (by decide), withBit_here (by decide)]
    · rw [withBit_below apart, withBit_here (by decide)]
  · intro index
    obtain ⟨first, second, last⟩ := patIndex_eq_iff.mp index
    rw [withPatIndex, withBit_idle first, withBit_idle second, withBit_idle last]
  · rw [withPatIndex, withBit_above positive inside, withBit_above (by decide) (by decide),
      withBit_above (by decide) (by decide)]

theorem withPatIndex_small (pat entry : Nat) :
    withPatIndex 0x80 pat entry / 0x1000 = entry / 0x1000 := by
  rw [withPatIndex, withBit_above (by decide) (by decide), withBit_above (by decide) (by decide),
    withBit_above (by decide) (by decide)]

theorem withPatIndex_large (pat entry : Nat) :
    largePage (withPatIndex 0x1000 pat entry) = largePage entry := by
  rw [Bool.eq_iff_iff, largePage_iff, largePage_iff, withPatIndex,
    withBit_below (by decide), withBit_above (by decide) (by decide),
    withBit_above (by decide) (by decide)]

theorem withPatIndex_indexed (level pat entry : Nat) :
    Indexed (patBit level) pat entry (withPatIndex (patBit level) pat entry) := by
  unfold patBit
  split
  · exact withPatIndex_eq (by decide) (by decide) (by decide)
  · exact withPatIndex_eq (by decide) (by decide) (by decide)

theorem withPatIndex_twice (level pat entry : Nat) :
    withPatIndex (patBit level) pat (withPatIndex (patBit level) pat entry) =
      withPatIndex (patBit level) pat entry :=
  (withPatIndex_indexed level pat _).idle (withPatIndex_indexed level pat entry).index

end Words

section Walks
variable {memory : Memory} {root va : Nat}

def entryPlace (memory : Memory) (root va : Nat) : Nat × Nat × Nat :=
  place pageFormat memory 3 root va

def readInfo (level entry va : Nat) : Option PageTableInfo :=
  if !present entry then none
  else
    match level with
    | 0 => some ⟨(entry &&& paging4KAddressMask64) + va % 0x1000, 4, entry, patIndex entry 0x80⟩
    | 1 => some ⟨(entry &&& paging2MAddressMask64) + va % 0x200000, 2, entry, patIndex entry 0x1000⟩
    | 2 => some ⟨(entry &&& paging1GAddressMask64) + va % 0x40000000, 1, entry, patIndex entry 0x1000⟩
    | _ => none

/-- What is known of a mapping: it is read off its entry, has a size and leads below 2^52. -/
theorem readInfo_some {level entry : Nat} {info : PageTableInfo}
    (mapped : readInfo level entry va = some info) :
    info.bits = entry ∧ info.patIndex = patIndex entry (patBit level) ∧
      info.physicalAddr < 4503599627370496 ∧
      ∃ size, levelSize info.level = some size ∧ 0 < size ∧ size ≤ base1GB := by
  unfold readInfo at mapped
  cases isPresent : present entry with
  | false => simp [isPresent] at mapped
  | true =>
    simp only [isPresent, Bool.not_true, Bool.false_eq_true, if_false] at mapped
    match level with
    | 0 =>
      cases mapped
      refine ⟨rfl, rfl, ?_, base4KB, rfl, by decide, by decide⟩
      rw [land_4K]
      dsimp only
      omega
    | 1 =>
      cases mapped
      refine ⟨rfl, rfl, ?_, base2MB, rfl, by decide, by decide⟩
      rw [land_2M]
      dsimp only
      omega
    | 2 =>
      cases mapped
      refine ⟨rfl, rfl, ?_, base1GB, rfl, by decide, by decide⟩
      rw [land_1G]
      dsimp only
      omega
    | level + 3 => cases mapped

theorem place_succ (level page : Nat) :
    place pageFormat memory (level + 1) page va =
      match decode (level + 1) (memory page (index (level + 1) va)) with
      | .table child => place pageFormat memory level child va
      | _ => (level + 1, page, index (level + 1) va) := by
  cases entry : decode (level + 1) (memory page (index (level + 1) va)) with
  | table child => exact place_below entry
  | absent => exact place_here fun child table => by cases entry.symm.trans table
  | leaf value => exact place_here fun child table => by cases entry.symm.trans table

theorem place_zero (page : Nat) : place pageFormat memory 0 page va = (0, page, ptOffset va) := rfl

/-- The walk of the source reads the entry at that place, and the walk that sets the index writes
it there. -/
theorem walks_eq (pat : Nat) :
    ocGetPageTableInfoForAddress memory root va =
        readInfo (entryPlace memory root va).1 (memory.read (entryPlace memory root va)) va ∧
      ocSetPageTableInfoForAddress memory root va pat =
        (ocGetPageTableInfoForAddress memory root va).map fun info =>
          (info.physicalAddr, info.level, memory.write (entryPlace memory root va)
            (withPatIndex (patBit (entryPlace memory root va).1) pat info.bits)) := by
  simp only [entryPlace, place_succ, place_zero, ocGetPageTableInfoForAddress, ocSetPageTableInfoForAddress,
    index, decode]
  cases top : present (memory root (pml4Offset va)) with
  | false => simp [readInfo, Memory.read, top]
  | true =>
    simp only [Bool.not_true, Bool.false_eq_true, if_false]
    generalize memory root (pml4Offset va) &&& paging4KAddressMask64 = pdp
    cases second : present (memory pdp (pdpOffset va)) with
    | false => simp [readInfo, Memory.read, second]
    | true =>
      simp only [Bool.not_true, Bool.false_eq_true, if_false]
      cases largePage (memory pdp (pdpOffset va)) with
      | true => simp [readInfo, Memory.read, Memory.write, patBit, second]
      | false =>
        simp only [Bool.false_eq_true, if_false]
        generalize memory pdp (pdpOffset va) &&& paging4KAddressMask64 = pd
        cases third : present (memory pd (pdOffset va)) with
        | false => simp [readInfo, Memory.read, third]
        | true =>
          simp only [Bool.not_true, Bool.false_eq_true, if_false]
          cases largePage (memory pd (pdOffset va)) with
          | true => simp [readInfo, Memory.read, Memory.write, patBit, third]
          | false =>
            simp only [Bool.false_eq_true, if_false]
            generalize memory pd (pdOffset va) &&& paging4KAddressMask64 = pt
            cases fourth : present (memory pt (ptOffset va)) with
            | false => simp [readInfo, Memory.read, fourth]
            | true => simp [readInfo, Memory.read, Memory.write, patBit, fourth]

end Walks

section Marks
variable {memory current : Memory} {root pat va : Nat} {marked : Nat × Nat × Nat → Prop}

def reindexed (level pat : Nat) (info : PageTableInfo) : PageTableInfo :=
  { info with bits := withPatIndex (patBit level) pat info.bits, patIndex := pat % 8 }

theorem readInfo_withPatIndex (level entry : Nat) :
    readInfo level (withPatIndex (patBit level) pat entry) va =
      (readInfo level entry va).map (reindexed level pat) := by
  have indexed := withPatIndex_indexed level pat entry
  have address := indexed.address
  unfold readInfo
  rw [indexed.present]
  split
  · rfl
  · match level with
    | 0 =>
      have small := withPatIndex_small pat entry
      have same : withPatIndex (patBit 0) pat entry &&& paging4KAddressMask64 =
          entry &&& paging4KAddressMask64 := by
        rw [land_4K, land_4K]
        exact congrArg (· % 1099511627776 * 4096) small
      simp only [same, Option.map_some, reindexed, Option.some.injEq]
      exact congrArg (PageTableInfo.mk _ _ _) indexed.index
    | 1 =>
      have same : withPatIndex (patBit 1) pat entry &&& paging2MAddressMask64 =
          entry &&& paging2MAddressMask64 := by
        rw [land_2M, land_2M]
        omega
      simp only [same, Option.map_some, reindexed, Option.some.injEq]
      exact congrArg (PageTableInfo.mk _ _ _) indexed.index
    | 2 =>
      have same : withPatIndex (patBit 2) pat entry &&& paging1GAddressMask64 =
          entry &&& paging1GAddressMask64 := by
        rw [land_1G, land_1G]
        omega
      simp only [same, Option.map_some, reindexed, Option.some.injEq]
      exact congrArg (PageTableInfo.mk _ _ _) indexed.index
    | level + 3 => rfl

theorem decode_withPatIndex {level entry : Nat} (last : ∀ child, decode level entry ≠ .table child)
    (child : Nat) : decode level (withPatIndex (patBit level) pat entry) ≠ .table child := by
  intro table
  have indexed := withPatIndex_indexed level pat entry
  obtain ⟨-, isPresent⟩ := eq_of_decode_table table
  rw [indexed.present] at isPresent
  cases level with
  | zero => simp [decode, indexed.present, isPresent] at table
  | succ level =>
    cases large : largePage entry with
    | false => exact last _ (decode_table isPresent large)
    | true =>
      have still : largePage (withPatIndex (patBit (level + 1)) pat entry) = true :=
        (withPatIndex_large pat entry).trans large
      rcases level with _ | _ | level
      · exact decode_large (by decide) (.inr still) table
      · exact decode_large (by decide) (.inr still) table
      · exact last _ (by simp [decode, isPresent]; rfl)

structure Marks (memory current : Memory) (root pat : Nat) (marked : Nat × Nat × Nat → Prop) :
    Prop where
  unshared : Unshared pageFormat current 3 root
  place : ∀ va, entryPlace current root va = entryPlace memory root va
  inside : ∀ va, marked (entryPlace memory root va) →
    current.read (entryPlace memory root va) =
      withPatIndex (patBit (entryPlace memory root va).1) pat (memory.read (entryPlace memory root va))
  outside : ∀ va, ¬marked (entryPlace memory root va) →
    current.read (entryPlace memory root va) = memory.read (entryPlace memory root va)

theorem Marks.refl (unshared : Unshared pageFormat memory 3 root) :
    Marks memory memory root pat fun _ => False where
  unshared := unshared
  place _ := rfl
  inside _ clash := clash.elim
  outside _ _ := rfl

section

variable (marks : Marks memory current root pat marked)
include marks

theorem Marks.info_inside (here : marked (entryPlace memory root va)) :
    ocGetPageTableInfoForAddress current root va = (ocGetPageTableInfoForAddress memory root va).map
      (reindexed (entryPlace memory root va).1 pat) := by
  rw [(walks_eq pat).1, (walks_eq pat).1, marks.place, marks.inside va here, readInfo_withPatIndex]

theorem Marks.info_outside (elsewhere : ¬marked (entryPlace memory root va)) :
    ocGetPageTableInfoForAddress current root va = ocGetPageTableInfoForAddress memory root va := by
  rw [(walks_eq pat).1, (walks_eq pat).1, marks.place, marks.outside va elsewhere]

theorem Marks.walk (va : Nat) :
    (ocGetPageTableInfoForAddress current root va).map (fun info => (info.physicalAddr, info.level)) =
      (ocGetPageTableInfoForAddress memory root va).map fun info => (info.physicalAddr, info.level) := by
  by_cases here : marked (entryPlace memory root va)
  · rw [marks.info_inside here, Option.map_map]
    rfl
  · rw [marks.info_outside here]

theorem Marks.mark (va : Nat) :
    Marks memory (current.write (entryPlace current root va)
        (withPatIndex (patBit (entryPlace current root va).1) pat
          (current.read (entryPlace current root va)))) root pat
      fun place => marked place ∨ place = entryPlace memory root va := by
  have last : ∀ word child, pageFormat.decode 0 word ≠ .table child := by
    intro word child table
    unfold pageFormat decode at table
    dsimp only at table
    split at table <;> cases table
  have ends : ∀ child, decode (entryPlace current root va).1
      (current.read (entryPlace current root va)) ≠ .table child := by
    intro child
    have old : found pageFormat current 3 root va ≠ .table child := found_ne_table last va child
    rw [found, stop_eq_place] at old
    exact old
  have rewritten : Rewritten pageFormat current (current.write (entryPlace current root va)
      (withPatIndex (patBit (entryPlace current root va).1) pat
        (current.read (entryPlace current root va)))) 3 root :=
    rewritten_set marks.unshared (found_ne_table last va) (decode_withPatIndex ends)
  have apart : ∀ other, entryPlace memory root other ≠ entryPlace memory root va →
      (entryPlace memory root other).2 ≠ (entryPlace current root va).2 := by
    intro other different same
    rw [← marks.place other] at same
    have equal := place_eq marks.unshared same
    rw [← marks.place other, ← marks.place va] at different
    exact different equal
  refine ⟨rewritten.unshared, fun other => (rewritten.place other).trans (marks.place other), ?_, ?_⟩
  · intro other either
    by_cases same : entryPlace memory root other = entryPlace memory root va
    · rw [same, ← marks.place va, Memory.read_write]
      by_cases before : marked (entryPlace memory root va)
      · have twice := withPatIndex_twice (entryPlace memory root va).1 pat
          (memory.read (entryPlace memory root va))
        rw [marks.place, marks.inside va before, twice]
      · rw [marks.place, marks.outside va before]
    · rw [Memory.read_write_other (apart other same)]
      exact marks.inside other (either.resolve_right same)
  · intro other neither
    rw [not_or] at neither
    rw [Memory.read_write_other (apart other neither.2)]
    exact marks.outside other neither.1

end

end Marks

section Run
variable {memory current : Memory} {root pat va endAddr : Nat} {marked : Nat × Nat × Nat → Prop}
variable {info : PageTableInfo}

def Identity (memory : Memory) (root va : Nat) : Prop :=
  ∃ info, ocGetPageTableInfoForAddress memory root va = some info ∧ info.physicalAddr = va

/-- The addresses that the loop comes to: as long as mappings are identity, the next one is behind
by the size of the page. -/
inductive Reached (memory : Memory) (root endAddr : Nat) : Nat → Nat → Prop where
  | here (va : Nat) : Reached memory root endAddr va va
  | later {va size target : Nat} {info : PageTableInfo}
      (mapped : ocGetPageTableInfoForAddress memory root va = some info)
      (identity : info.physicalAddr = va) (sized : levelSize info.level = some size)
      (within : va + size < endAddr) (rest : Reached memory root endAddr (va + size) target) :
      Reached memory root endAddr va target

def SetFrom (memory : Memory) (root endAddr va : Nat) (place : Nat × Nat × Nat) : Prop :=
  ∃ reached, Reached memory root endAddr va reached ∧
    (ocGetPageTableInfoForAddress memory root reached).isSome = true ∧
    place = entryPlace memory root reached

structure Runs (memory : Memory) (root endAddr pat va : Nat) (marked : Nat × Nat × Nat → Prop)
    (run : PatRun) : Prop where
  marks : Marks memory run.memory root pat fun place =>
    marked place ∨ SetFrom memory root endAddr va place
  reached : Reached memory root endAddr va run.virtualAddr
  success : run.status = .success ↔ ∀ reached, Reached memory root endAddr va reached →
    Identity memory root reached
  unsupported : run.status = .unsupported → ∃ info,
    ocGetPageTableInfoForAddress memory root run.virtualAddr = some info ∧
      info.physicalAddr ≠ run.virtualAddr
  stopped : ∀ reached, Reached memory root endAddr va reached →
    (∃ info, ocGetPageTableInfoForAddress memory root reached = some info ∧
      info.physicalAddr ≠ reached) → run.status = .unsupported ∧ run.virtualAddr = reached

theorem Marks.congr {other : Nat × Nat × Nat → Prop} (marks : Marks memory current root pat marked)
    (same : ∀ va, marked (entryPlace memory root va) ↔ other (entryPlace memory root va)) :
    Marks memory current root pat other where
  unshared := marks.unshared
  place := marks.place
  inside va here := marks.inside va ((same va).mpr here)
  outside va elsewhere := marks.outside va (mt (same va).mp elsewhere)

section

variable (mapped : ocGetPageTableInfoForAddress memory root va = some info)
include mapped

theorem setFrom_last (last : ∀ reached, Reached memory root endAddr va reached → reached = va)
    (place : Nat × Nat × Nat) :
    SetFrom memory root endAddr va place ↔ place = entryPlace memory root va := by
  constructor
  · rintro ⟨reached, there, _, rfl⟩
    rw [last reached there]
  · rintro rfl
    exact ⟨va, .here va, by rw [mapped]; rfl, rfl⟩

theorem reached_next {size target : Nat}
    (identity : info.physicalAddr = va) (sized : levelSize info.level = some size)
    (within : va + size < endAddr) :
    Reached memory root endAddr va target ↔
      target = va ∨ Reached memory root endAddr (va + size) target := by
  constructor
  · intro reached
    cases reached with
    | here => exact .inl rfl
    | later otherMapped _ otherSized _ rest =>
      cases mapped.symm.trans otherMapped
      cases sized.symm.trans otherSized
      exact .inr rest
  · rintro (rfl | rest)
    · exact .here target
    · exact .later mapped identity sized within rest

theorem setFrom_next {size : Nat}
    (identity : info.physicalAddr = va) (sized : levelSize info.level = some size)
    (within : va + size < endAddr) (place : Nat × Nat × Nat) :
    SetFrom memory root endAddr va place ↔
      place = entryPlace memory root va ∨ SetFrom memory root endAddr (va + size) place := by
  have next : ∀ target, Reached memory root endAddr va target ↔
      target = va ∨ Reached memory root endAddr (va + size) target :=
    fun _ => reached_next mapped identity sized within
  constructor
  · rintro ⟨reached, there, isMapped, rfl⟩
    rcases (next reached).mp there with rfl | rest
    · exact .inl rfl
    · exact .inr ⟨reached, rest, isMapped, rfl⟩
  · rintro (rfl | ⟨reached, there, isMapped, rfl⟩)
    · exact ⟨va, .here va, by rw [mapped]; rfl, rfl⟩
    · exact ⟨reached, (next reached).mpr (.inr there), isMapped, rfl⟩

theorem Runs.last {run : PatRun}
    (last : ∀ reached, Reached memory root endAddr va reached → reached = va)
    (next : Marks memory run.memory root pat
      fun place => marked place ∨ place = entryPlace memory root va)
    (stops : run.virtualAddr = va)
    (success : run.status = .success ↔ info.physicalAddr = va)
    (failed : info.physicalAddr ≠ va → run.status = .unsupported) :
    Runs memory root endAddr pat va marked run where
  marks := next.congr fun _ => or_congr_right (setFrom_last mapped last _).symm
  reached := by
    rw [stops]
    exact .here va
  success := by
    rw [success]
    constructor
    · intro identity reached there
      rw [last reached there]
      exact ⟨info, mapped, identity⟩
    · intro all
      obtain ⟨other, otherMapped, identity⟩ := all va (.here va)
      cases mapped.symm.trans otherMapped
      exact identity
  unsupported failed := by
    rw [stops]
    refine ⟨info, mapped, fun identity => ?_⟩
    rw [success.mpr identity] at failed
    cases failed
  stopped reached there := by
    rintro ⟨other, otherMapped, moved⟩
    rw [last reached there] at otherMapped moved ⊢
    cases mapped.symm.trans otherMapped
    exact ⟨failed moved, stops⟩

end

theorem setPatLoop_runs {fuel : Nat} (marks : Marks memory current root pat marked)
    (enough : endAddr - va < fuel) :
    ∃ run, setPatLoop root endAddr pat fuel current va = some run ∧
      Runs memory root endAddr pat va marked run := by
  induction fuel generalizing current va marked with
  | zero => exact absurd enough (Nat.not_lt_zero _)
  | succ fuel ih =>
    have walk := marks.walk va
    rw [setPatLoop, (walks_eq pat).2]
    cases found : ocGetPageTableInfoForAddress current root va with
    | none =>
      rw [found, Option.map_none] at walk
      have unmapped : ocGetPageTableInfoForAddress memory root va = none :=
        Option.map_eq_none_iff.mp walk.symm
      have last : ∀ reached, Reached memory root endAddr va reached → reached = va := by
        intro reached there
        cases there with
        | here => rfl
        | later mapped => cases unmapped.symm.trans mapped
      refine ⟨_, rfl, ?_, .here va, ?_, ?_, ?_⟩
      · apply marks.congr
        intro other
        refine ⟨.inl, fun either => either.resolve_right ?_⟩
        rintro ⟨reached, there, mapped, _⟩
        rw [last reached there, unmapped] at mapped
        cases mapped
      · constructor
        · intro clash
          cases clash
        · intro all
          obtain ⟨info, mapped, _⟩ := all va (.here va)
          cases unmapped.symm.trans mapped
      · intro clash
        cases clash
      · rintro reached there ⟨info, mapped, _⟩
        rw [last reached there] at mapped
        cases unmapped.symm.trans mapped
    | some info =>
      rw [found, Option.map_some] at walk
      obtain ⟨old, mapped, same⟩ := Option.map_eq_some_iff.mp walk.symm
      obtain ⟨physical, level⟩ := Prod.mk.inj same
      have word : current.read (entryPlace current root va) = info.bits := by
        rw [(walks_eq pat).1] at found
        exact (readInfo_some found).1.symm
      have next := marks.mark va
      rw [word] at next
      have read := mapped
      rw [(walks_eq pat).1] at read
      obtain ⟨-, -, low, size, sized, positive, limited⟩ := readInfo_some read
      rw [physical] at low
      rw [level] at sized
      simp only [Option.map_some, sized]
      rw [← physical]
      split
      · rename_i moved
        have last : ∀ reached, Reached memory root endAddr va reached → reached = va := by
          intro reached there
          cases there with
          | here => rfl
          | later otherMapped identity =>
            cases mapped.symm.trans otherMapped
            exact absurd identity.symm moved
        refine ⟨_, rfl, Runs.last mapped last next rfl ?_ fun _ => rfl⟩
        exact iff_of_false (fun clash => by cases clash) (Ne.symm moved)
      · rename_i same
        have identity : old.physicalAddr = va := (not_not.mp same).symm
        have whole : (va + size) % u64 = va + size := by
          rw [Nat.mod_eq_of_lt]
          rw [u64_val]
          rw [base1GB] at limited
          omega
        rw [← level] at sized
        rw [whole]
        split
        · rename_i within
          have fewer : endAddr - (va + size) < fuel := by omega
          obtain ⟨run, ran, runs⟩ := ih next fewer
          refine ⟨run, ran, ?_, ?_, ?_, runs.unsupported, ?_⟩
          · apply runs.marks.congr
            intro other
            rw [setFrom_next mapped identity sized within, or_assoc]
          · exact .later mapped identity sized within runs.reached
          · rw [runs.success]
            constructor
            · intro all reached there
              rcases (reached_next mapped identity sized within).mp there with rfl | rest
              · exact ⟨old, mapped, identity⟩
              · exact all reached rest
            · intro all reached there
              exact all reached (.later mapped identity sized within there)
          · rintro reached there ⟨info, otherMapped, moved⟩
            rcases (reached_next mapped identity sized within).mp there with rfl | rest
            · cases mapped.symm.trans otherMapped
              exact absurd identity moved
            · exact runs.stopped reached rest ⟨info, otherMapped, moved⟩
        · rename_i beyond
          have last : ∀ reached, Reached memory root endAddr va reached → reached = va := by
            intro reached there
            cases there with
            | here => rfl
            | later otherMapped _ otherSized within =>
              cases mapped.symm.trans otherMapped
              cases sized.symm.trans otherSized
              exact absurd within beyond
          exact ⟨_, rfl, Runs.last mapped last next rfl (iff_of_true rfl identity)
            fun moved => absurd identity moved⟩

end Run

section Range
variable {memory : Memory} {root va length pat : Nat}

def indexAt (memory : Memory) (root va : Nat) : Option Nat :=
  (ocGetPageTableInfoForAddress memory root va).map (·.patIndex)

structure SetsRange (memory : Memory) (root va length pat : Nat) (run : PatRun) : Prop where
  covered : run.status = .success → ∀ address, va ≤ address → address < va + length →
    indexAt run.memory root address = some (pat % 8)
  others : run.status = .success → ∀ other,
    (∀ address, va ≤ address → address < va + length →
      entryPlace memory root address ≠ entryPlace memory root other) →
    indexAt run.memory root other = indexAt memory root other
  failed : run.status = .unsupported →
    ocGetPageTableInfoForAddress run.memory root run.virtualAddr =
      ocGetPageTableInfoForAddress memory root run.virtualAddr

/-- No page of the range is passed over unless it has the index already, an empty range begins in
such a page, and so does the first mapping that is not identity. -/
structure Steps (memory : Memory) (root va length pat : Nat) : Prop where
  covered : (∀ reached, Reached memory root (va + length) va reached → Identity memory root reached) →
    ∀ address, va ≤ address → address < va + length →
      (∃ reached, Reached memory root (va + length) va reached ∧
        entryPlace memory root reached = entryPlace memory root address) ∨
      indexAt memory root address = some (pat % 8)
  empty : length = 0 → Identity memory root va → indexAt memory root va = some (pat % 8)
  failed : ∀ reached, Reached memory root (va + length) va reached →
    (∃ info, ocGetPageTableInfoForAddress memory root reached = some info ∧
      info.physicalAddr ≠ reached) → indexAt memory root reached = some (pat % 8)

theorem Marks.indexAt_inside {current : Memory} {marked : Nat × Nat × Nat → Prop}
    (marks : Marks memory current root pat marked) (here : marked (entryPlace memory root va)) :
    indexAt current root va = (ocGetPageTableInfoForAddress memory root va).map fun _ => pat % 8 := by
  rw [indexAt, marks.info_inside here, Option.map_map]
  rfl

theorem Marks.indexAt_outside {current : Memory} {marked : Nat × Nat × Nat → Prop}
    (marks : Marks memory current root pat marked) (elsewhere : ¬marked (entryPlace memory root va)) :
    indexAt current root va = indexAt memory root va := by
  rw [indexAt, marks.info_outside elsewhere, ← indexAt]

theorem reindexed_idle {info : PageTableInfo}
    (mapped : ocGetPageTableInfoForAddress memory root va = some info) :
    reindexed (entryPlace memory root va).1 pat info = info ↔ info.patIndex = pat % 8 := by
  constructor
  · intro same
    rw [← same]
    rfl
  · intro index
    have indexed := withPatIndex_indexed (entryPlace memory root va).1 pat info.bits
    have idle : withPatIndex (patBit (entryPlace memory root va).1) pat info.bits = info.bits := by
      apply indexed.idle
      rw [← index]
      rw [(walks_eq 0).1] at mapped
      obtain ⟨bits, place, -⟩ := readInfo_some mapped
      rw [bits, place]
    rw [reindexed, idle, ← index]

theorem indexAt_congr {other : Nat} (same : entryPlace memory root va = entryPlace memory root other) :
    indexAt memory root va = indexAt memory root other := by
  rw [indexAt, indexAt, (walks_eq 0).1, (walks_eq 0).1, same]
  unfold readInfo
  split
  · rfl
  · split <;> rfl

theorem indexAt_eq_some_iff {index : Nat} : indexAt memory root va = some index ↔
    ∃ info, ocGetPageTableInfoForAddress memory root va = some info ∧ info.patIndex = index :=
  Option.map_eq_some_iff

theorem Reached.range {endAddr reached : Nat} (there : Reached memory root endAddr va reached) :
    va ≤ reached ∧ (reached = va ∨ reached < endAddr) := by
  induction there with
  | here => exact ⟨le_refl _, .inl rfl⟩
  | later mapped identity sized within rest ih => omega

theorem Runs.setsRange {run : PatRun}
    (runs : Runs memory root (va + length) pat va (fun _ => False) run)
    (steps : Steps memory root va length pat) : SetsRange memory root va length pat run := by
  have marks : Marks memory run.memory root pat (SetFrom memory root (va + length) va) :=
    runs.marks.congr fun _ => ⟨fun either => either.resolve_left id, .inr⟩
  have setsIndex : ∀ address, indexAt memory root address = some (pat % 8) →
      indexAt run.memory root address = some (pat % 8) := by
    intro address index
    by_cases here : SetFrom memory root (va + length) va (entryPlace memory root address)
    · obtain ⟨info, mapped, _⟩ := indexAt_eq_some_iff.mp index
      rw [marks.indexAt_inside here, mapped]
      rfl
    · rw [marks.indexAt_outside here]
      exact index
  refine ⟨?_, ?_, ?_⟩
  · intro success address low high
    have identity := runs.success.mp success
    rcases steps.covered identity address low high with ⟨reached, there, same⟩ | index
    · obtain ⟨info, mapped, _⟩ := identity reached there
      have here : SetFrom memory root (va + length) va (entryPlace memory root reached) :=
        ⟨reached, there, by rw [mapped]; rfl, rfl⟩
      have index := marks.indexAt_inside here
      rw [mapped] at index
      rw [← marks.place, ← marks.place] at same
      rw [← indexAt_congr same]
      exact index
    · exact setsIndex address index
  · intro success other apart
    by_cases here : SetFrom memory root (va + length) va (entryPlace memory root other)
    · obtain ⟨reached, there, isMapped, same⟩ := here
      obtain ⟨low, first | inside⟩ := there.range
      · by_cases empty : length = 0
        · -- The only page that an empty range touches has the index before and after.
          subst first
          have index := steps.empty empty (runs.success.mp success reached (.here reached))
          rw [indexAt_congr same, index]
          rw [← marks.place, ← marks.place] at same
          rw [indexAt_congr same]
          exact setsIndex reached index
        · exact absurd same.symm (apart reached low (by omega))
      · exact absurd same.symm (apart reached low inside)
    · exact marks.indexAt_outside here
  · intro failed
    obtain ⟨info, mapped, moved⟩ := runs.unsupported failed
    have index := steps.failed _ runs.reached ⟨info, mapped, moved⟩
    obtain ⟨again, sameMapped, sameIndex⟩ := indexAt_eq_some_iff.mp index
    cases mapped.symm.trans sameMapped
    have here : SetFrom memory root (va + length) va (entryPlace memory root run.virtualAddr) :=
      ⟨_, runs.reached, by rw [mapped]; rfl, rfl⟩
    rw [marks.info_inside here, mapped, Option.map_some, (reindexed_idle mapped).mpr sameIndex]

theorem Runs.steps {run : PatRun}
    (runs : Runs memory root (va + length) pat va (fun _ => False) run)
    (sets : SetsRange memory root va length pat run) : Steps memory root va length pat := by
  have marks : Marks memory run.memory root pat (SetFrom memory root (va + length) va) :=
    runs.marks.congr fun _ => ⟨fun either => either.resolve_left id, .inr⟩
  refine ⟨?_, ?_, ?_⟩
  · intro identity address low high
    have index := sets.covered (runs.success.mpr identity) address low high
    by_cases here : SetFrom memory root (va + length) va (entryPlace memory root address)
    · obtain ⟨reached, there, _, same⟩ := here
      exact .inl ⟨reached, there, same.symm⟩
    · rw [marks.indexAt_outside here] at index
      exact .inr index
  · intro empty identity
    have only : ∀ reached, Reached memory root (va + length) va reached → reached = va := by
      intro reached there
      have range := there.range
      omega
    have all : ∀ reached, Reached memory root (va + length) va reached →
        Identity memory root reached := by
      intro reached there
      rw [only reached there]
      exact identity
    have kept := sets.others (runs.success.mpr all) va (by omega)
    obtain ⟨info, mapped, _⟩ := identity
    have here : SetFrom memory root (va + length) va (entryPlace memory root va) :=
      ⟨va, .here va, by rw [mapped]; rfl, rfl⟩
    rw [← kept, marks.indexAt_inside here, mapped]
    rfl
  · rintro reached there ⟨info, mapped, moved⟩
    obtain ⟨failed, rfl⟩ := runs.stopped reached there ⟨info, mapped, moved⟩
    have kept := sets.failed failed
    have here : SetFrom memory root (va + length) va (entryPlace memory root run.virtualAddr) :=
      ⟨_, there, by rw [mapped]; rfl, rfl⟩
    rw [marks.info_inside here, mapped, Option.map_some, Option.some.injEq] at kept
    exact indexAt_eq_some_iff.mpr ⟨info, mapped, (reindexed_idle mapped).mp kept⟩

/-- The index is set for a range exactly when the steps of the loop miss no page of it, and what
they touch otherwise has the index already. -/
theorem ocSetPatIndexForAddressRange_setsRange (unshared : Unshared pageFormat memory 3 root) :
    ∃ fuel run, ocSetPatIndexForAddressRange fuel memory root va length pat = some run ∧
      (SetsRange memory root va length pat run ↔
        (va + length < u64 → Steps memory root va length pat)) := by
  by_cases fits : va + length < u64
  · have start : Marks memory memory root pat fun _ => False := Marks.refl unshared
    obtain ⟨run, ran, runs⟩ := setPatLoop_runs start (Nat.lt_succ_self (va + length - va))
    refine ⟨va + length - va + 1, run, ?_, fun sets _ => runs.steps sets, fun steps => runs.setsRange (steps fits)⟩
    rw [ocSetPatIndexForAddressRange, baseOverflowAdd, if_pos fits]
    exact ran
  · refine ⟨0, ⟨.invalidParameter, memory, va⟩, ?_, fun _ clash => absurd clash fits,
      fun _ => ?_⟩
    · rw [ocSetPatIndexForAddressRange, baseOverflowAdd, if_neg fits]
    · refine ⟨fun clash => ?_, fun clash => ?_, fun clash => ?_⟩
      · cases clash
      · cases clash
      · cases clash

def lowTables : Memory := fun page slot =>
  if page = 0x4000 then slot * 0x1000 + 3
  else if slot = 0 then
    if page = 0x1000 then 0x2003 else if page = 0x2000 then 0x3003
    else if page = 0x3000 then 0x4003 else 0
  else 0

theorem unshared_chain {level page child : Nat}
    (single : ∀ slot other, decode (level + 1) (memory page slot) = .table other →
      slot = 0 ∧ other = child)
    (below : Unshared pageFormat memory level child)
    (apart : ¬Owns pageFormat memory level child page) :
    Unshared pageFormat memory (level + 1) page := by
  intro slot _ other entry
  obtain ⟨rfl, rfl⟩ := single slot other entry
  exact ⟨below, apart, fun next _ sibling nextEntry _ _ _ => (single next sibling nextEntry).1.symm⟩

theorem owns_chain {level page child owned : Nat}
    (single : ∀ slot other, decode (level + 1) (memory page slot) = .table other →
      slot = 0 ∧ other = child)
    (owns : Owns pageFormat memory (level + 1) page owned) :
    owned = page ∨ Owns pageFormat memory level child owned := by
  rcases owns with root | ⟨slot, _, other, entry, below⟩
  · exact .inl root
  · obtain ⟨-, rfl⟩ := single slot other entry
    exact .inr below

theorem lowTables_unshared : Unshared pageFormat lowTables 3 0x1000 := by
  have single : ∀ level page child, page ≠ 0x4000 → level < 3 →
      lowTables page 0 &&& paging4KAddressMask64 = child →
      ∀ slot other, decode (level + 1) (lowTables page slot) = .table other →
        slot = 0 ∧ other = child := by
    intro level page child notLast _ address slot other entry
    obtain ⟨rfl, isPresent⟩ := eq_of_decode_table entry
    by_cases first : slot = 0
    · subst first
      exact ⟨rfl, address⟩
    · rw [lowTables, if_neg notLast, if_neg first] at isPresent
      cases isPresent
  have third := single 0 0x3000 0x4000 (by decide) (by decide) (by decide)
  have second := single 1 0x2000 0x3000 (by decide) (by decide) (by decide)
  have top := single 2 0x1000 0x2000 (by decide) (by decide) (by decide)
  have thirdOwns : ∀ owned, Owns pageFormat lowTables 1 0x3000 owned → owned = 0x3000 ∨ owned = 0x4000 :=
    fun _ owns => owns_chain third owns
  have secondOwns : ∀ owned, Owns pageFormat lowTables 2 0x2000 owned → owned ≠ 0x1000 := by
    rintro owned owns rfl
    rcases owns_chain second owns with same | below
    · cases same
    · rcases thirdOwns _ below with same | same <;> cases same
  refine unshared_chain top (unshared_chain second (unshared_chain third trivial ?_) ?_) ?_
  · intro owns
    cases owns
  · intro owns
    rcases thirdOwns _ owns with same | same <;> cases same
  · exact fun owns => secondOwns _ owns rfl

theorem ocSetPatIndexForAddressRange_setsRange_lowTables :
    ∃ fuel run, ocSetPatIndexForAddressRange fuel lowTables 0x1000 0x1000 0x2000 1 = some run ∧
      (SetsRange lowTables 0x1000 0x1000 0x2000 1 run ↔
        (0x1000 + 0x2000 < u64 → Steps lowTables 0x1000 0x1000 0x2000 1)) :=
  ocSetPatIndexForAddressRange_setsRange lowTables_unshared

/-- A range that begins in the middle of a page: its last page keeps its index. -/
theorem ocSetPatIndexForAddressRange_unaligned :
    (ocSetPatIndexForAddressRange 9 lowTables 0x1000 0x1800 0x1000 1).map
      (fun run => (run.status, indexAt run.memory 0x1000 0x2000)) = some (.success, some 0) := by
  decide

end Range

end OpenCore.PatIndexRange
