import OpenCore.MachoLookup

/-!
From an address or a symbol to a place in the file and to the size that can be used from
there on: `MachoGetFilePointerByAddress`, `MachoSymbolGetDirectFileOffset` and
`MachoSymbolGetFileOffset`. A pointer is its distance from the start of the file.
-/

namespace OpenCore.MachoWindows

open Base MachoHeader MachoImage MachoLookup

structure Window where
  offset : Nat
  maxSize : Nat
  deriving DecidableEq

structure Symbol where
  sect : Nat
  value : Nat
  sectFits : sect < 256
  deriving DecidableEq

def noSect : Nat := 0

def machXToUint32 (value : Nat) : Nat := value % u32

section Windows
variable (lookup : Lookup)
variable {symbol : Symbol} {modulus : Nat} {uintn : Nat}

def segmentAt (address : Nat) : Option PlacedSegment :=
  lookup.segments.find? fun segment => segment.holds (limit lookup.arch) address

def internalMachoGetFilePointerByAddress (uintn address : Nat) : Option Window :=
  match segmentAt lookup address with
  | none => none
  | some segment =>
    let offset := address - segment.virtualAddress
    some {
      offset := (offset + segment.fileOffset) % limit lookup.arch % uintn
      maxSize := machXToUint32 (segment.size - offset) }

def windowFrom (base size offset : Nat) : Window where
  offset := machXToUint32 ((base + offset) % limit lookup.arch)
  maxSize := machXToUint32 (size - offset)

def internalMachoSymbolGetDirectFileOffset (address : Nat) : Option Window :=
  match segmentAt lookup address with
  | none => none
  | some segment => some
      (windowFrom lookup segment.fileOffset segment.size (address - segment.virtualAddress))

def sectionOf (symbol : Symbol) : Option PlacedSection :=
  match machoGetSectionByIndex lookup (symbol.sect - 1) with
  | none => none
  | some (_, sect) => if sect.size = 0 then none else some sect

def machoSymbolGetFileOffset (symbol : Symbol) : Option Window :=
  if symbol.sect = noSect then none
  else
    match sectionOf lookup symbol with
    | none =>
      match segmentAt lookup symbol.value with
      | none => none
      | some segment => some
          (windowFrom lookup segment.fileOffset segment.size
            (symbol.value - segment.virtualAddress))
    | some sect =>
      if symbol.value < sect.address then none
      else
        let offset := symbol.value - sect.address
        if offset > sect.size then none
        else some (windowFrom lookup sect.offset sect.size offset)

structure Backed (fileSize start extent : Nat) (window : Window) : Prop where
  lower : start ≤ window.offset
  upper : window.offset + window.maxSize ≤ start + extent
  inFile : window.offset + window.maxSize ≤ fileSize

def SegmentBacked (address : Nat) (window : Window) : Prop :=
  ∃ segment ∈ segmentAt lookup address,
    Backed lookup.fileSize segment.fileOffset segment.fileSize window

def SectionBacked (sect : PlacedSection) (window : Window) : Prop :=
  sect.offset ≠ 0 ∧ Backed lookup.fileSize sect.offset sect.size window

def SymbolBacked (symbol : Symbol) (window : Window) : Prop :=
  match sectionOf lookup symbol with
  | none => SegmentBacked lookup symbol.value window
  | some sect => SectionBacked lookup sect window

/-- What the segment has in memory from the address on, it has in the file as well. The
distance is taken in the width it is returned in. -/
def SegmentRoom (modulus address : Nat) : Prop :=
  ∀ segment ∈ segmentAt lookup address,
    (address - segment.virtualAddress) % modulus +
      machXToUint32 (segment.size - (address - segment.virtualAddress)) ≤ segment.fileSize

/-- The section that the address of the symbol is looked up in has bytes in the file. -/
def SymbolRoom (symbol : Symbol) : Prop :=
  symbol.sect ≠ noSect →
    match sectionOf lookup symbol with
    | none => SegmentRoom lookup u32 symbol.value
    | some sect =>
      sect.address ≤ symbol.value → symbol.value - sect.address ≤ sect.size → sect.offset ≠ 0

variable {lookup} {segment : PlacedSegment} {address : Nat} {window : Window}

/-- An offset that wraps comes out in front of the range it is counted in, unless whole
turns are skipped. -/
theorem wrapped_inside_iff {start extent modulus : Nat} (distance size : Nat)
    (top : start + extent < modulus) :
    (start ≤ (start + distance) % modulus ∧ (start + distance) % modulus + size ≤ start + extent) ↔
    distance % modulus + size ≤ extent := by
  have bound : distance % modulus < modulus := Nat.mod_lt _ (by omega)
  have reduced : (start + distance) % modulus = (start + distance % modulus) % modulus :=
    (Nat.add_mod_mod start distance modulus).symm
  rw [reduced]
  generalize distance % modulus = rest at bound
  rcases Nat.lt_or_ge (start + rest) modulus with fits | wraps
  · rw [Nat.mod_eq_of_lt fits]
    omega
  · have residue : (start + rest) % modulus = start + rest - modulus := by
      rw [Nat.mod_eq_sub_mod wraps, Nat.mod_eq_of_lt (by omega)]
    rw [residue]
    omega

theorem backed_iff (wide : u32 ≤ modulus) (found : segmentAt lookup address = some segment)
    (offset : window.offset = (segment.fileOffset + (address - segment.virtualAddress)) % modulus)
    (maxSize : window.maxSize = machXToUint32 (segment.size - (address - segment.virtualAddress))) :
    SegmentBacked lookup address window ↔ SegmentRoom lookup modulus address := by
  have inside := lookup.segmentsInside segment (List.mem_of_find?_eq_some found)
  have top : segment.fileOffset + segment.fileSize < modulus :=
    lt_of_le_of_lt inside (lt_of_lt_of_le lookup.fileSizeFits wide)
  have range := wrapped_inside_iff (address - segment.virtualAddress) window.maxSize top
  rw [← offset, maxSize] at range
  have room : SegmentRoom lookup modulus address ↔ (address - segment.virtualAddress) % modulus +
        machXToUint32 (segment.size - (address - segment.virtualAddress)) ≤ segment.fileSize := by
    simp only [SegmentRoom, found, Option.mem_some_iff, forall_eq']
  rw [room, ← range, SegmentBacked]
  constructor
  · rintro ⟨other, same, backed⟩
    cases Option.some.inj (found.symm.trans same)
    rw [← maxSize]
    exact ⟨backed.lower, backed.upper⟩
  · rintro ⟨lower, upper⟩
    rw [← maxSize] at upper
    exact ⟨segment, found, lower, upper, upper.trans inside⟩

theorem mod_limit_mod (words : uintn = u32 ∨ uintn = u64) (arch : MachX)
    (value : Nat) : value % limit arch % uintn = value % min (limit arch) uintn := by
  rcases words with rfl | rfl
  · have divides : u32 ∣ limit arch := by cases arch <;> decide
    rw [Nat.mod_mod_of_dvd value divides, min_eq_right (limit_ge arch)]
  · have bound : limit arch ≤ u64 := by cases arch <;> decide
    have positive : 0 < limit arch := lt_of_lt_of_le (by decide) (limit_ge arch)
    rw [min_eq_left bound, Nat.mod_eq_of_lt (lt_of_lt_of_le (Nat.mod_lt value positive) bound)]

theorem windowFrom_offset (base size offset : Nat) :
    (windowFrom lookup base size offset).offset = (base + offset) % u32 := by
  have reduced := mod_limit_mod (Or.inl rfl) lookup.arch (base + offset)
  rw [min_eq_right (limit_ge lookup.arch)] at reduced
  exact reduced

theorem room_of_none (missing : segmentAt lookup address = none) (modulus : Nat) :
    SegmentRoom lookup modulus address := by
  intro segment found
  rw [missing] at found
  cases found

theorem segmentWindow_iff (wide : u32 ≤ modulus) (build : PlacedSegment → Window)
    (offset : ∀ segment, (build segment).offset =
      (segment.fileOffset + (address - segment.virtualAddress)) % modulus)
    (maxSize : ∀ segment, (build segment).maxSize =
      machXToUint32 (segment.size - (address - segment.virtualAddress))) :
    (∀ window, (segmentAt lookup address).map build = some window →
      SegmentBacked lookup address window) ↔ SegmentRoom lookup modulus address := by
  cases found : segmentAt lookup address with
  | none =>
    constructor
    · intro _
      exact room_of_none found modulus
    · intro _ window returned
      cases returned
  | some segment =>
    rw [← backed_iff wide found (offset segment) (maxSize segment)]
    constructor
    · intro backed
      exact backed (build segment) rfl
    · intro backed window returned
      cases returned
      exact backed

theorem pointer_map (uintn : Nat) :
    internalMachoGetFilePointerByAddress lookup uintn address =
      (segmentAt lookup address).map fun segment => {
        offset := ((address - segment.virtualAddress) + segment.fileOffset) %
          limit lookup.arch % uintn
        maxSize := machXToUint32 (segment.size - (address - segment.virtualAddress)) } := by
  rw [internalMachoGetFilePointerByAddress]
  cases segmentAt lookup address <;> rfl

theorem direct_map :
    internalMachoSymbolGetDirectFileOffset lookup address =
      (segmentAt lookup address).map fun segment =>
        windowFrom lookup segment.fileOffset segment.size (address - segment.virtualAddress) := by
  rw [internalMachoSymbolGetDirectFileOffset]
  cases segmentAt lookup address <;> rfl

theorem pointer_backed_iff (words : uintn = u32 ∨ uintn = u64) :
    (∀ window, internalMachoGetFilePointerByAddress lookup uintn address = some window →
      SegmentBacked lookup address window) ↔
    SegmentRoom lookup (min (limit lookup.arch) uintn) address := by
  have wide : u32 ≤ uintn := by rcases words with rfl | rfl <;> decide
  rw [pointer_map]
  apply segmentWindow_iff (Nat.le_min.mpr ⟨limit_ge lookup.arch, wide⟩)
  · intro segment
    rw [add_comm segment.fileOffset]
    exact mod_limit_mod words lookup.arch _
  · intro segment
    rfl

theorem direct_backed_iff :
    (∀ window, internalMachoSymbolGetDirectFileOffset lookup address = some window →
      SegmentBacked lookup address window) ↔ SegmentRoom lookup u32 address := by
  rw [direct_map]
  apply segmentWindow_iff (le_refl u32)
  · intro segment
    exact windowFrom_offset _ _ _
  · intro segment
    rfl

/-- The check of a section puts its bytes inside the file, so that its window is what is
left of it. -/
theorem sectionWindow_backed {sect : PlacedSection}
    (found : sectionOf lookup symbol = some sect) {offset : Nat} (bound : offset ≤ sect.size) :
    Backed lookup.fileSize sect.offset sect.size
      (windowFrom lookup sect.offset sect.size offset) := by
  rw [sectionOf] at found
  split at found
  · cases found
  rename_i segment other indexed
  split at found
  · cases found
  cases found
  -- The section of a symbol is an eight-bit number, counted from one.
  have fits : symbol.sect - 1 < u32 := by
    have small := symbol.sectFits
    rw [u32_val]
    omega
  obtain ⟨member, -, checked⟩ := machoGetSectionByIndex_eq_some fits indexed
  have top := (SaneSection.of_check member checked).fileTop
  have inside := lookup.segmentsInside segment member
  have fileFits := lookup.fileSizeFits
  have placed : (windowFrom lookup sect.offset sect.size offset).offset = sect.offset + offset := by
    rw [windowFrom_offset, Nat.mod_eq_of_lt (by omega)]
  have sized : (windowFrom lookup sect.offset sect.size offset).maxSize = sect.size - offset :=
    Nat.mod_eq_of_lt (by omega)
  constructor
  · rw [placed]
    exact Nat.le_add_right sect.offset offset
  · rw [placed, sized]
    omega
  · rw [placed, sized]
    omega

theorem symbol_backed_iff :
    (∀ window, machoSymbolGetFileOffset lookup symbol = some window →
      SymbolBacked lookup symbol window) ↔ SymbolRoom lookup symbol := by
  by_cases unplaced : symbol.sect = noSect
  · simp [machoSymbolGetFileOffset, SymbolRoom, unplaced]
  cases found : sectionOf lookup symbol with
  | none =>
    have direct := @direct_backed_iff lookup symbol.value
    simp only [machoSymbolGetFileOffset, SymbolBacked, SymbolRoom, unplaced, found, if_false,
      not_false_eq_true, true_implies, ne_eq]
    exact direct
  | some sect =>
    simp only [machoSymbolGetFileOffset, SymbolBacked, SymbolRoom, unplaced, found, if_false,
      not_false_eq_true, true_implies, ne_eq]
    constructor
    · intro backed lower bound
      rw [if_neg (not_lt.mpr lower), if_neg (not_lt.mpr bound)] at backed
      exact (backed _ rfl).1
    · intro filed window returned
      split at returned
      · cases returned
      split at returned
      · cases returned
      cases returned
      exact ⟨filed (by omega) (by omega), sectionWindow_backed found (by omega)⟩

theorem windowFrom_lt (base size offset : Nat) :
    (windowFrom lookup base size offset).offset < u32 := Nat.mod_lt _ (by decide)

theorem direct_lt (found : internalMachoSymbolGetDirectFileOffset lookup address = some window) :
    window.offset < u32 := by
  rw [direct_map] at found
  obtain ⟨segment, _, rfl⟩ := Option.map_eq_some_iff.mp found
  exact windowFrom_lt _ _ _

theorem machoSymbolGetFileOffset_lt
    (found : machoSymbolGetFileOffset lookup symbol = some window) : window.offset < u32 := by
  rw [machoSymbolGetFileOffset] at found
  split at found
  · cases found
  split at found
  · split at found
    · cases found
    · cases found
      exact windowFrom_lt _ _ _
  · split at found
    · cases found
    dsimp only at found
    split at found
    · cases found
    · cases found
      exact windowFrom_lt _ _ _

/-- Each function hands out file-backed windows exactly where its condition holds. The
sizes of segments are taken from memory, and those of sections without bytes in the file
are not told apart from the others. -/
theorem windows_backed (lookup : Lookup) (address : Nat) (symbol : Symbol) {uintn : Nat}
    (words : uintn = u32 ∨ uintn = u64) :
    ((∀ window, internalMachoGetFilePointerByAddress lookup uintn address = some window →
        SegmentBacked lookup address window) ↔
      SegmentRoom lookup (min (limit lookup.arch) uintn) address) ∧
    ((∀ window, internalMachoSymbolGetDirectFileOffset lookup address = some window →
        SegmentBacked lookup address window) ↔ SegmentRoom lookup u32 address) ∧
    ((∀ window, machoSymbolGetFileOffset lookup symbol = some window →
        SymbolBacked lookup symbol window) ↔ SymbolRoom lookup symbol) :=
  ⟨pointer_backed_iff words, direct_backed_iff, symbol_backed_iff⟩

/-- A segment of two pages, one of which is in the file, with a section of the other one. -/
def bssSegment : PlacedSegment :=
  ⟨0x1000, 0x2000, 0, 0x1000, [⟨⟨0x800, 0, 0, 0⟩, 0x2000, 0⟩]⟩

def bssLookup : Lookup where
  arch := .mach64
  fileSize := 0x1000
  segments := [bssSegment]
  fileSizeFits := page_lt_u32
  segmentsInside := by decide
  addressesFit := by decide
  sectionsFit := by decide

def bssSymbol : Symbol := ⟨1, 0x2000, by decide⟩

theorem windows_backed_bss :
    internalMachoGetFilePointerByAddress bssLookup u64 0x1000 = some ⟨0, 0x2000⟩ ∧
    internalMachoSymbolGetDirectFileOffset bssLookup 0x1000 = some ⟨0, 0x2000⟩ ∧
    ¬SegmentBacked bssLookup 0x1000 ⟨0, 0x2000⟩ ∧
    machoSymbolGetFileOffset bssLookup bssSymbol = some ⟨0, 0x800⟩ ∧
    ¬SymbolBacked bssLookup bssSymbol ⟨0, 0x800⟩ := by
  refine ⟨by decide, by decide, ?_, by decide, ?_⟩
  · rintro ⟨segment, -, backed⟩
    exact absurd backed.inFile (by decide)
  · intro backed
    exact absurd backed.1 (by decide)

theorem windows_backed_first : SegmentBacked strayLookup 0x1800 ⟨0x800, 0x800⟩ := by
  have room : SegmentRoom strayLookup (min (limit strayLookup.arch) u64) 0x1800 := by
    intro segment found
    cases found
    decide
  have backed := windows_backed strayLookup 0x1800 ⟨0, 0, by decide⟩ (Or.inr rfl)
  exact backed.1.mpr room ⟨0x800, 0x800⟩ (by decide)

end Windows

end OpenCore.MachoWindows
