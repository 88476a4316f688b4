import OpenCore.MachoImage
import Mathlib.Algebra.Order.BigOperators.Group.List

/-!
The segments and sections of a Mach-O file as the library looks them up: by walking
along the sections of a segment, by the index of a section and by an address. A
pointer to a section is its index in its segment.
-/

namespace OpenCore.MachoLookup

open Base AddressSpace MachoHeader MachoImage List

structure PlacedSection extends MachoImage.Section where
  address : Nat
  alignment : Nat
  deriving DecidableEq

structure PlacedSegment where
  virtualAddress : Nat
  size : Nat
  fileOffset : Nat
  fileSize : Nat
  sections : List PlacedSection
  deriving DecidableEq

structure Lookup where
  arch : MachX
  fileSize : Nat
  segments : List PlacedSegment
  fileSizeFits : fileSize < u32
  segmentsInside : ∀ segment ∈ segments, segment.fileOffset + segment.fileSize ≤ fileSize
  addressesFit : ∀ segment ∈ segments, segment.virtualAddress + segment.size < limit arch
  sectionsFit : (segments.map fun segment => segment.sections.length).sum < u32

section Reading
variable (memory : Memory) (uintn : Nat)
variable {fileSize command : Nat} {arch : MachX}

def readPlacedSection (arch : MachX) (place : Nat) : PlacedSection where
  toSection := readSection memory arch place
  address := wideField memory arch (place + 32) 0
  alignment := narrowField memory arch (place + 32) 2 1

def readPlacedSegment (arch : MachX) (command : Nat) : PlacedSegment where
  virtualAddress := wideField memory arch (command + 24) 0
  size := wideField memory arch (command + 24) 1
  fileOffset := wideField memory arch (command + 24) 2
  fileSize := wideField memory arch (command + 24) 3
  sections := (List.range (numSections memory arch command)).map fun index =>
    readPlacedSection memory arch (command + segmentCommandSize arch + index * sectionSize arch)

theorem segmentAccepted_sections
    (accepted : segmentAccepted memory uintn arch fileSize command = true) :
    numSections memory arch command ≤ commandSize memory command := by
  rw [segmentAccepted, Bool.and_eq_true, Bool.and_eq_true, Bool.and_eq_true] at accepted
  have within := accepted.1.1.2
  split at within
  · rename_i top computed
    obtain ⟨rfl, _⟩ := baseOverflowMulAdd_eq_some computed
    have bound := of_decide_eq_true within
    have wide : 1 ≤ sectionSize arch := by cases arch <;> decide
    have scaled := Nat.mul_le_mul_left (numSections memory arch command) wide
    omega
  · cases within

theorem segmentAccepted_addresses
    (accepted : segmentAccepted memory uintn arch fileSize command = true) :
    (readSegment memory arch command).virtualAddress + (readSegment memory arch command).size <
      limit arch := by
  rw [segmentAccepted, Bool.and_eq_true] at accepted
  have unwrapped := of_decide_eq_true accepted.2
  have startFits : (readSegment memory arch command).virtualAddress < limit arch :=
    load_lt memory arch.uintSize _
  have sizeFits : (readSegment memory arch command).size < limit arch :=
    load_lt memory arch.uintSize _
  generalize (readSegment memory arch command).virtualAddress = start at *
  generalize (readSegment memory arch command).size = size at *
  apply Nat.lt_of_not_le
  intro wrapped
  -- A sum that wraps comes out below its first term.
  have residue : (start + size) % limit arch = start + size - limit arch := by
    rw [Nat.mod_eq_sub_mod wrapped, Nat.mod_eq_of_lt (by omega)]
  omega

def lookupOf (context : MachoContext) (top : Nat) (fileFits : context.fileSize < u32)
    (headerFits : context.arch.headerSize + headerCommandsSize memory context.machHeader < u32)
    (checked : HeaderChecked memory uintn context.arch context.machHeader top) : Lookup where
  arch := context.arch
  fileSize := context.fileSize
  segments := (segmentPlaces memory uintn context).map (readPlacedSegment memory context.arch)
  fileSizeFits := fileFits
  segmentsInside := by
    intro segment member
    obtain ⟨command, place, rfl⟩ := mem_map.mp member
    exact segmentAccepted_inside memory uintn (mem_takeWhile_imp place)
  addressesFit := by
    intro segment member
    obtain ⟨command, place, rfl⟩ := mem_map.mp member
    exact segmentAccepted_addresses memory uintn (mem_takeWhile_imp place)
  sectionsFit := by
    have total := sum_starts memory uintn checked.tiled
      fun command member => (checked.checked command member).next
    have counted : ∀ command ∈ segmentPlaces memory uintn context,
        (readPlacedSegment memory context.arch command).sections.length ≤
          commandSize memory command := by
      intro command place
      rw [readPlacedSegment, length_map, length_range]
      exact segmentAccepted_sections memory uintn (mem_takeWhile_imp place)
    have bounded := sum_le_sum counted
    have chosen : (segmentPlaces memory uintn context).Sublist
        (commandPlaces memory uintn context) :=
      (takeWhile_sublist _).trans filter_sublist
    have covered := (chosen.map (commandSize memory)).sum_le_sum fun _ _ => Nat.zero_le _
    rw [map_map]
    have commands : ((commandPlaces memory uintn context).map (commandSize memory)).sum =
        headerCommandsSize memory context.machHeader := Nat.add_left_cancel total
    exact Nat.lt_of_le_of_lt (bounded.trans (covered.trans commands.le)) (by omega)

end Reading

section Lookups
variable (lookup : Lookup)
variable {segments : List PlacedSegment} {found : Nat × PlacedSection} {sectionIndex place : Nat}
  {current : Option Nat}

def internalSectionIsSane (sect : PlacedSection) (segment : PlacedSegment) : Bool :=
  if sect.alignment > 31 ∨ sect.offset ≠ 0 ∧ sect.offset < segment.fileOffset then false
  else
    let topOfSegment := (segment.virtualAddress + segment.size) % limit lookup.arch
    match baseOverflowAdd (limit lookup.arch) sect.address sect.size with
    | none => false
    | some topOfSection =>
      if topOfSection > topOfSegment then false
      else
        match baseOverflowAdd (limit lookup.arch) sect.offset sect.size with
        | none => false
        | some topOffset =>
          if topOffset > (segment.fileOffset + segment.fileSize) % limit lookup.arch then false
          else if sect.numRelocations = 0 then true
          else
            match baseOverflowMulAdd u32 sect.numRelocations 8 sect.relocationsOffset with
            | none => false
            | some top => decide (top ≤ lookup.fileSize)

def saneSection (segment : PlacedSegment) (index : Nat) : Option (Nat × PlacedSection) :=
  match segment.sections[index]? with
  | none => none
  | some sect => if internalSectionIsSane lookup sect segment then some (index, sect) else none

def machoGetNextSection (segment : PlacedSegment) : Option Nat → Option (Nat × PlacedSection)
  | some sect => saneSection lookup segment (sect + 1)
  | none => saneSection lookup segment 0

/-- Where the loop of `MachoGetSectionByIndex` stops, from the number of sections
passed so far. If that number wraps, the index must be contained. -/
def sectionIndexFrom (index : Nat) : Nat → List PlacedSegment → Option (PlacedSegment × Nat)
  | _, [] => none
  | sectionIndex, segment :: rest =>
    match baseOverflowAdd u32 sectionIndex segment.sections.length with
    | none => some (segment, index - sectionIndex)
    | some nextSectionIndex =>
      if index < nextSectionIndex then some (segment, index - sectionIndex)
      else sectionIndexFrom index nextSectionIndex rest

def machoGetSectionByIndex (index : Nat) : Option (PlacedSegment × PlacedSection) :=
  match sectionIndexFrom index 0 lookup.segments with
  | none => none
  | some (segment, place) => (saneSection lookup segment place).map fun found => (segment, found.2)

def sectionByAddressAfter (segment : PlacedSegment) (address : Nat) :
    Nat → Option Nat → Option PlacedSection
  | 0, _ => none
  | left + 1, current =>
    match machoGetNextSection lookup segment current with
    | none => none
    | some (index, sect) =>
      let topOfSection := (sect.address + sect.size) % limit lookup.arch
      if sect.address ≤ address ∧ address < topOfSection then some sect
      else sectionByAddressAfter segment address left (some index)

def PlacedSegment.holds (segment : PlacedSegment) (modulus address : Nat) : Bool :=
  decide (segment.virtualAddress ≤ address) &&
    decide (address < (segment.virtualAddress + segment.size) % modulus)

def sectionByAddressFrom (address : Nat) :
    List PlacedSegment → Option (PlacedSegment × PlacedSection)
  | [] => none
  | segment :: rest =>
    if segment.holds (limit lookup.arch) address then
      match sectionByAddressAfter lookup segment address segment.sections.length none with
      | some sect => some (segment, sect)
      | none => sectionByAddressFrom address rest
    else sectionByAddressFrom address rest

def machoGetSectionByAddress (address : Nat) : Option (PlacedSegment × PlacedSection) :=
  sectionByAddressFrom lookup address lookup.segments

structure SaneSection (sect : PlacedSection) (segment : PlacedSegment) : Prop where
  alignment : sect.alignment ≤ 31
  fileLower : sect.offset ≠ 0 → segment.fileOffset ≤ sect.offset
  addressTop : sect.address + sect.size ≤ segment.virtualAddress + segment.size
  fileTop : sect.offset + sect.size ≤ segment.fileOffset + segment.fileSize
  relocations : sect.numRelocations ≠ 0 →
    sect.numRelocations * 8 + sect.relocationsOffset ≤ lookup.fileSize

variable {lookup} {segment : PlacedSegment} {sect : PlacedSection} {index : Nat}

theorem fileTop_fits (member : segment ∈ lookup.segments) :
    segment.fileOffset + segment.fileSize < limit lookup.arch :=
  Nat.lt_of_le_of_lt (lookup.segmentsInside segment member)
    (Nat.lt_of_lt_of_le lookup.fileSizeFits (limit_ge lookup.arch))

theorem SaneSection.of_check (member : segment ∈ lookup.segments)
    (checked : internalSectionIsSane lookup sect segment = true) :
    SaneSection lookup sect segment := by
  rw [internalSectionIsSane] at checked
  -- Neither end of the segment wraps: that was checked when it was returned.
  simp only [Nat.mod_eq_of_lt (lookup.addressesFit segment member),
    Nat.mod_eq_of_lt (fileTop_fits member)] at checked
  split at checked
  · cases checked
  rename_i placed
  split at checked
  · cases checked
  rename_i topOfSection addressAdded
  obtain ⟨rfl, _⟩ := baseOverflowAdd_eq_some addressAdded
  split at checked
  · cases checked
  rename_i addressTop
  split at checked
  · cases checked
  rename_i topOffset offsetAdded
  obtain ⟨rfl, _⟩ := baseOverflowAdd_eq_some offsetAdded
  split at checked
  · cases checked
  rename_i fileTop
  constructor
  · omega
  · omega
  · omega
  · omega
  · intro some
    rw [if_neg some] at checked
    split at checked
    · cases checked
    · rename_i top computed
      obtain ⟨rfl, _⟩ := baseOverflowMulAdd_eq_some computed
      exact of_decide_eq_true checked

theorem saneSection_eq_some (sane : saneSection lookup segment index = some found) :
    found.1 = index ∧ found.2 ∈ segment.sections ∧
      internalSectionIsSane lookup found.2 segment = true := by
  rw [saneSection] at sane
  split at sane
  · cases sane
  · rename_i sect stored
    split at sane
    · rename_i checked
      cases sane
      exact ⟨rfl, mem_of_getElem? stored, checked⟩
    · cases sane

theorem saneSection_of_check (stored : segment.sections[index]? = some sect)
    (checked : internalSectionIsSane lookup sect segment = true) :
    saneSection lookup segment index = some (index, sect) := by
  simp only [saneSection, stored, checked, if_true]

theorem machoGetNextSection_eq_some
    (next : machoGetNextSection lookup segment current = some found) :
    found.2 ∈ segment.sections ∧ internalSectionIsSane lookup found.2 segment = true := by
  cases current with
  | none => exact (saneSection_eq_some next).2
  | some sect => exact (saneSection_eq_some next).2

theorem sectionIndexFrom_inside (passed : sectionIndex ≤ index) (fits : index < u32)
    (stopped : sectionIndexFrom index sectionIndex segments = some (segment, place)) :
    segment ∈ segments ∧ place < segment.sections.length := by
  induction segments generalizing sectionIndex with
  | nil => cases stopped
  | cons head rest ih =>
    rw [sectionIndexFrom] at stopped
    split at stopped
    · rename_i wrapped
      -- The count wraps only past every index, so the index is in this segment.
      cases stopped
      rw [baseOverflowAdd] at wrapped
      split at wrapped
      · cases wrapped
      · exact ⟨mem_cons_self, by omega⟩
    · rename_i nextSectionIndex added
      obtain ⟨rfl, _⟩ := baseOverflowAdd_eq_some added
      split at stopped
      · cases stopped
        exact ⟨mem_cons_self, by omega⟩
      · obtain ⟨member, bound⟩ := ih (by omega) stopped
        exact ⟨mem_cons_of_mem head member, bound⟩

theorem sectionIndexFrom_reaches
    (member : segment ∈ segments) (stored : place < segment.sections.length)
    (fits : sectionIndex + (segments.map fun segment => segment.sections.length).sum < u32) :
    ∃ index, sectionIndex ≤ index ∧ index < u32 ∧
      sectionIndexFrom index sectionIndex segments = some (segment, place) := by
  induction segments generalizing sectionIndex with
  | nil => cases member
  | cons head rest ih =>
    rw [map_cons, sum_cons] at fits
    have added : baseOverflowAdd u32 sectionIndex head.sections.length =
        some (sectionIndex + head.sections.length) := if_pos (by omega)
    rcases mem_cons.mp member with rfl | later
    · refine ⟨sectionIndex + place, by omega, by omega, ?_⟩
      rw [sectionIndexFrom, added]
      simp only [Nat.add_lt_add_iff_left, stored, if_true, Nat.add_sub_cancel_left]
    · have restFits : sectionIndex + head.sections.length +
          (rest.map fun segment => segment.sections.length).sum < u32 := by omega
      obtain ⟨index, passed, bound, stopped⟩ := ih later restFits
      refine ⟨index, by omega, bound, ?_⟩
      rw [sectionIndexFrom, added]
      simp only [Nat.not_lt.mpr passed, if_false, stopped]

theorem machoGetSectionByIndex_eq_some (fits : index < u32)
    (found : machoGetSectionByIndex lookup index = some (segment, sect)) :
    segment ∈ lookup.segments ∧ sect ∈ segment.sections ∧
      internalSectionIsSane lookup sect segment = true := by
  rw [machoGetSectionByIndex] at found
  split at found
  · cases found
  · rename_i where_ place stopped
    obtain ⟨sane, checked, same⟩ := Option.map_eq_some_iff.mp found
    cases same
    exact ⟨(sectionIndexFrom_inside (Nat.zero_le index) fits stopped).1,
      (saneSection_eq_some checked).2⟩

theorem sectionByAddressAfter_sane {address left : Nat}
    (found : sectionByAddressAfter lookup segment address left current = some sect) :
    sect ∈ segment.sections ∧ internalSectionIsSane lookup sect segment = true := by
  induction left generalizing current with
  | zero => cases found
  | succ left ih =>
    rw [sectionByAddressAfter] at found
    split at found
    · cases found
    · rename_i index other next
      dsimp only at found
      split at found
      · cases found
        exact machoGetNextSection_eq_some next
      · exact ih found

theorem sectionByAddressFrom_sane {address : Nat}
    (found : sectionByAddressFrom lookup address segments = some (segment, sect)) :
    segment ∈ segments ∧ sect ∈ segment.sections ∧
      internalSectionIsSane lookup sect segment = true := by
  induction segments with
  | nil => cases found
  | cons head rest ih =>
    have later : sectionByAddressFrom lookup address rest = some (segment, sect) →
        segment ∈ head :: rest ∧ sect ∈ segment.sections ∧
          internalSectionIsSane lookup sect segment = true := fun found =>
      ⟨mem_cons_of_mem head (ih found).1, (ih found).2⟩
    rw [sectionByAddressFrom] at found
    split at found
    · split at found
      · rename_i inner reached
        cases found
        exact ⟨mem_cons_self, sectionByAddressAfter_sane reached⟩
      · exact later found
    · exact later found

inductive Walked (lookup : Lookup) (segment : PlacedSegment) : Nat → PlacedSection → Prop where
  | first {index : Nat} {sect : PlacedSection}
      (found : machoGetNextSection lookup segment none = some (index, sect)) :
      Walked lookup segment index sect
  | next {index later : Nat} {sect other : PlacedSection}
      (walked : Walked lookup segment index sect)
      (found : machoGetNextSection lookup segment (some index) = some (later, other)) :
      Walked lookup segment later other

inductive Returned (lookup : Lookup) : PlacedSegment → PlacedSection → Prop where
  | walked {segment : PlacedSegment} {index : Nat} {sect : PlacedSection}
      (member : segment ∈ lookup.segments) (walked : Walked lookup segment index sect) :
      Returned lookup segment sect
  | byIndex {segment : PlacedSegment} {index : Nat} {sect : PlacedSection} (fits : index < u32)
      (found : machoGetSectionByIndex lookup index = some (segment, sect)) :
      Returned lookup segment sect
  | byAddress {segment : PlacedSegment} {address : Nat} {sect : PlacedSection}
      (found : machoGetSectionByAddress lookup address = some (segment, sect)) :
      Returned lookup segment sect

theorem Returned.sane (returned : Returned lookup segment sect) :
    segment ∈ lookup.segments ∧ sect ∈ segment.sections ∧
      internalSectionIsSane lookup sect segment = true := by
  cases returned with
  | walked member walked =>
    cases walked with
    | first found => exact ⟨member, machoGetNextSection_eq_some found⟩
    | next walked found => exact ⟨member, machoGetNextSection_eq_some found⟩
  | byIndex fits found => exact machoGetSectionByIndex_eq_some fits found
  | byAddress found => exact sectionByAddressFrom_sane found

theorem Returned.of_sane (member : segment ∈ lookup.segments) (stored : sect ∈ segment.sections)
    (checked : internalSectionIsSane lookup sect segment = true) :
    Returned lookup segment sect := by
  obtain ⟨place, bound, rfl⟩ := mem_iff_getElem.mp stored
  have fits : 0 + (lookup.segments.map fun segment => segment.sections.length).sum < u32 := by
    rw [zero_add]
    exact lookup.sectionsFit
  -- The walks stop at the first section that fails; only by index every one is reached.
  obtain ⟨index, -, bounded, stopped⟩ := sectionIndexFrom_reaches member bound fits
  apply Returned.byIndex bounded
  rw [machoGetSectionByIndex, stopped]
  simp only [saneSection_of_check (getElem?_eq_getElem bound) checked, Option.map_some]

/-- Of an accepted file only sane sections are returned. -/
theorem acceptedLookup_sane {memory : Memory} {uintn fileData fileSize headerOffset innerSize : Nat}
    {is32Bit : Bool} {context : MachoContext} (object : fileData + fileSize < uintn)
    (inside : headerOffset ≤ fileSize) (small : fileSize < u32)
    (accepted : machoInitializeContext memory uintn fileData fileSize headerOffset innerSize is32Bit =
      some context) (sliceFits : context.fileSize < u32)
    (returned : Returned (lookupOf memory uintn context _ sliceFits
      (header_fits object inside small accepted)
      (machoInitializeContext_checked object inside accepted).2) segment sect) :
    sect.offset + sect.size ≤ context.fileSize := by
  obtain ⟨member, -, checked⟩ := returned.sane
  exact le_trans (SaneSection.of_check member checked).fileTop (Lookup.segmentsInside _ _ member)

structure InsideSegment (modulus : Nat) (segment : PlacedSegment) (sect : PlacedSection) :
    Prop where
  addressLower : segment.virtualAddress ≤ sect.address
  addressTop : sect.address + sect.size ≤ segment.virtualAddress + segment.size
  addressFits : sect.address + sect.size < modulus
  fileLower : sect.offset ≠ 0 → segment.fileOffset ≤ sect.offset
  fileTop : sect.offset ≠ 0 → sect.offset + sect.size ≤ segment.fileOffset + segment.fileSize
  fileFits : sect.offset + sect.size < modulus

theorem SaneSection.inside (member : segment ∈ lookup.segments)
    (sane : SaneSection lookup sect segment) (lower : segment.virtualAddress ≤ sect.address) :
    InsideSegment (limit lookup.arch) segment sect where
  addressLower := lower
  addressTop := sane.addressTop
  addressFits := Nat.lt_of_le_of_lt sane.addressTop (lookup.addressesFit segment member)
  fileLower := sane.fileLower
  fileTop := fun _ => sane.fileTop
  fileFits := Nat.lt_of_le_of_lt sane.fileTop (fileTop_fits member)

-- The check bounds a file range on both sides, and an address range from above only.
theorem returned_inside (lookup : Lookup) :
    (∀ segment sect, Returned lookup segment sect →
      InsideSegment (limit lookup.arch) segment sect) ↔
    ∀ segment ∈ lookup.segments, ∀ sect ∈ segment.sections,
      internalSectionIsSane lookup sect segment = true →
        segment.virtualAddress ≤ sect.address := by
  constructor
  · intro inside segment member sect stored checked
    exact (inside segment sect (Returned.of_sane member stored checked)).addressLower
  · intro lower segment sect returned
    obtain ⟨member, stored, checked⟩ := returned.sane
    exact (SaneSection.of_check member checked).inside member
      (lower segment member sect stored checked)

theorem page_lt_u32 : 0x1000 < u32 := by decide

def straySection : PlacedSection := ⟨⟨0x10, 0x400, 0, 0⟩, 0x100, 0⟩

def straySegment : PlacedSegment := ⟨0x1000, 0x1000, 0, 0x1000, [straySection]⟩

def strayLookup : Lookup where
  arch := .mach64
  fileSize := 0x1000
  segments := [straySegment]
  fileSizeFits := page_lt_u32
  segmentsInside := by decide
  addressesFit := by decide
  sectionsFit := by decide

theorem returned_inside_stray : ¬∀ segment sect, Returned strayLookup segment sect →
    InsideSegment (limit strayLookup.arch) segment sect := by
  intro inside
  have returned : Returned strayLookup straySegment straySection :=
    Returned.byIndex (show 0 < u32 by decide) (by decide)
  exact absurd (inside _ _ returned).addressLower (by decide)

end Lookups

end OpenCore.MachoLookup
