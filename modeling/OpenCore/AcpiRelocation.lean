import OpenCore.AcpiRegions
import Mathlib.Algebra.Ring.Nat

/-!
What loading and relocating the regions does to the tables. A region is known by its
name alone, so the same tables come back when regions of one name have one address;
and a table whose recognition does not rest on the addresses gets those loaded
first under the names, as far as they fit.
-/

namespace OpenCore.AcpiRelocation

open Base ByteBuffer PatchScan AcpiRegions List

section Operands

variable {table : Bytes} {bufferLen index : Nat}

variable {place : Nat × Nat} {offset : Nat}

theorem constantAt_inside
    (found : constantAt table offset = some place) : place.1 = offset + 1 ∧ place.2 ≤ 4 := by
  unfold constantAt at found
  split at found
  next =>
    cases found
    exact ⟨rfl, le_refl _⟩
  next =>
    split at found
    next =>
      cases found
      exact ⟨rfl, show 2 ≤ 4 by decide⟩
    next => cases found

theorem addressOperand_inside (room : offset + 5 ≤ bufferLen)
    (found : addressOperand table bufferLen offset = some place) :
    place.1 + place.2 ≤ bufferLen ∧ place.2 ≤ 4 := by
  unfold addressOperand at found
  split at found
  next =>
    obtain ⟨start, width⟩ := constantAt_inside found
    omega
  next =>
    obtain ⟨read, -, rest⟩ := Option.bind_eq_some_iff.mp found
    simp only at rest
    split at rest
    next bound =>
      obtain ⟨start, width⟩ := constantAt_inside rest
      rw [ocAcpiNameSize] at start
      omega
    next => cases rest

theorem acpiReadName_offset {read : Bytes × Nat}
    (found : acpiReadName table offset = some read) : read.2 ≤ 1 := by
  unfold acpiReadName at found
  obtain ⟨-, same⟩ := Option.ite_none_right_eq_some.mp found
  rw [← Option.some.inj same]
  simp only
  split <;> decide

theorem regionAt_inside {name : Bytes} (room : index < bufferLen - 0xF)
    (found : regionAt table bufferLen index = some (name, some place)) :
    place.1 + place.2 ≤ bufferLen ∧ place.2 ≤ 4 := by
  unfold regionAt at found
  split at found
  next =>
    obtain ⟨read, named, rest⟩ := Option.bind_eq_some_iff.mp found
    have offset := acpiReadName_offset named
    split at rest
    next =>
      obtain ⟨-, operand⟩ := Prod.mk.inj (Option.some.inj rest)
      exact addressOperand_inside (by rw [ocAcpiNameSize]; omega) operand
    next => cases rest
  next => cases found

theorem mem_positions :
    index ∈ positions table ↔ 36 ≤ index ∧ index < bufferLength table - 0xF := by
  unfold positions
  rw [acpiDescriptionHeaderSize]
  split
  next short => exact iff_of_false not_mem_nil (by omega)
  next =>
    rw [mem_range'_1]
    omega

end Operands

section Patches

variable (regions : List Region)

def relocation (bufferLen : Nat) (table : Bytes) (index : Nat) : Option Patch :=
  (regionAt table bufferLen index).bind fun found =>
    (regions.find? fun region => region.name = found.1).bind fun region =>
      found.2.map fun place => ⟨place.1, place.2, region.address⟩

variable {regions} {bufferLen : Nat} {table : Bytes} {index : Nat}

theorem relocation_eq_some {patch : Patch}
    (found : relocation regions bufferLen table index = some patch) :
    ∃ name place region, regionAt table bufferLen index = some (name, some place) ∧
      (regions.find? fun region => region.name = name) = some region ∧
      patch = ⟨place.1, place.2, region.address⟩ := by
  obtain ⟨⟨name, operand⟩, at', rest⟩ := Option.bind_eq_some_iff.mp found
  obtain ⟨region, known, last⟩ := Option.bind_eq_some_iff.mp rest
  obtain ⟨place, same, rfl⟩ := Option.map_eq_some_iff.mp last
  simp only at same
  subst same
  exact ⟨name, place, region, at', known, rfl⟩

theorem relocation_of {name : Bytes} {place : Nat × Nat} {region : Region}
    (at' : regionAt table bufferLen index = some (name, some place))
    (known : (regions.find? fun region => region.name = name) = some region) :
    relocation regions bufferLen table index = some ⟨place.1, place.2, region.address⟩ := by
  rw [relocation, at', Option.bind_some, known]
  rfl

theorem relocateRegionsAt_cons (rest : List Nat) (state : Bytes × Bool) :
    relocateRegionsAt regions bufferLen (index :: rest) state =
      relocateRegionsAt regions bufferLen rest
        (match relocation regions bufferLen state.1 index with
        | none => state
        | some patch => (patch.apply state.1, true)) := by
  rw [relocateRegionsAt, relocation]
  cases regionAt state.1 bufferLen index with
  | none => rfl
  | some found =>
    obtain ⟨name, operand⟩ := found
    simp only [Option.bind_some]
    cases regions.find? fun region => region.name = name with
    | none => rfl
    | some region =>
      cases operand with
      | none => rfl
      | some place => rfl

theorem relocateRegionsAt_table (indices : List Nat) (state : Bytes × Bool) :
    (relocateRegionsAt regions bufferLen indices state).1 =
      scan (relocation regions bufferLen) indices state.1 := by
  induction indices generalizing state with
  | nil => rfl
  | cons index rest ih =>
    rw [relocateRegionsAt_cons, ih, scan]
    cases relocation regions bufferLen state.1 index <;> rfl

/-- When every patch writes what is there, `Modified` says that there was one. -/
theorem relocateRegionsAt_present {indices : List Nat} (modified : Bool)
    (present : ∀ index ∈ indices, ∀ patch, relocation regions bufferLen table index = some patch →
      patch.Inside table ∧ patch.Present table) :
    relocateRegionsAt regions bufferLen indices (table, modified) =
      (table, modified || indices.any fun index => (relocation regions bufferLen table index).isSome) := by
  induction indices generalizing modified with
  | nil => rw [relocateRegionsAt, any_nil, Bool.or_false]
  | cons index rest ih =>
    have behind : ∀ other ∈ rest, ∀ patch, relocation regions bufferLen table other = some patch →
        patch.Inside table ∧ patch.Present table :=
      fun other member => present other (mem_cons_of_mem _ member)
    rw [relocateRegionsAt_cons, any_cons]
    cases found : relocation regions bufferLen table index with
    | none =>
      rw [Option.isSome_none, Bool.false_or]
      exact ih modified behind
    | some patch =>
      obtain ⟨inside, holds⟩ := present index mem_cons_self patch found
      simp only [holds.apply inside, Option.isSome_some, Bool.true_or, Bool.or_true]
      rw [ih true behind, Bool.true_or]

end Patches

section Loaded

variable {allocates : Nat → Bool} {list : RegionList}

def Sourced (tables : List Bytes) (region : Region) : Prop :=
  ∃ table ∈ tables, ∃ index ∈ positions table, ∃ place,
    regionAt table (bufferLength table) index = some (region.name, some place) ∧
      load table place.2 place.1 = region.address

theorem saveRegion_regions {grown : RegionList} {region : Region}
    (saved : saveRegion allocates list region = some grown) :
    grown.regions = list.regions ++ [region] := by
  unfold saveRegion at saved
  split at saved
  next =>
    split at saved
    next =>
      cases saved
      rfl
    next => cases saved
  next =>
    cases saved
    rfl

theorem loadRegionsAt_sourced {tables : List Bytes} {table : Bytes} {indices : List Nat}
    (member : table ∈ tables) (part : ∀ index ∈ indices, index ∈ positions table)
    (sourced : ∀ region ∈ list.regions, Sourced tables region) :
    ∀ region ∈ (loadRegionsAt allocates table indices list).2.regions, Sourced tables region := by
  induction indices generalizing list with
  | nil => exact sourced
  | cons index rest ih =>
    have later : ∀ other ∈ rest, other ∈ positions table :=
      fun other behind => part other (mem_cons_of_mem _ behind)
    rw [loadRegionsAt]
    cases found : regionAt table (bufferLength table) index with
    | none => exact ih later sourced
    | some read =>
      obtain ⟨name, operand⟩ := read
      simp only
      generalize known : freshAddress list _ = address
      by_cases nonzero : address ≠ 0
      · rw [if_pos nonzero]
        split
        next => exact sourced
        next grown saved =>
          refine ih later fun region listed => ?_
          rw [saveRegion_regions saved] at listed
          rcases mem_append.mp listed with before | last
          · exact sourced region before
          · -- A region is saved only when its address was read and is not zero.
            cases mem_singleton.mp last
            cases operand with
            | none =>
              rw [Option.map_none, Option.getD_none, freshAddress, ite_self] at known
              exact absurd known.symm nonzero
            | some place =>
              refine ⟨table, member, index, part index mem_cons_self, place, found, ?_⟩
              rw [Option.map_some, Option.getD_some, freshAddress] at known
              split at known
              next => exact absurd known.symm nonzero
              next => exact known
      · rw [if_neg nonzero]
        exact ih later sourced

theorem loadTables_sourced {tables rest : List Bytes} (part : ∀ table ∈ rest, table ∈ tables)
    (sourced : ∀ region ∈ list.regions, Sourced tables region) :
    ∀ region ∈ (loadTables allocates rest list).2.regions, Sourced tables region := by
  induction rest generalizing list with
  | nil => exact sourced
  | cons table rest ih =>
    have loaded := @loadRegionsAt_sourced allocates list tables table (positions table)
      (part table mem_cons_self) (fun _ member => member) sourced
    rw [loadTables]
    unfold acpiLoadTableRegions
    split
    next grown same =>
      rw [same] at loaded
      exact ih (fun other behind => part other (mem_cons_of_mem _ behind)) loaded
    next => exact loaded

theorem acpiLoadRegions_sourced (tables : AcpiTables) :
    ∀ region ∈ (acpiLoadRegions allocates tables).2.regions, Sourced tables.scanned region := by
  unfold acpiLoadRegions
  split
  next => exact loadTables_sourced (fun _ member => member) fun _ listed => absurd listed not_mem_nil
  next => exact fun _ listed => absurd listed not_mem_nil

end Loaded

section Checksum

variable {table : Bytes}

def WellFormed (table : Bytes) : Prop := bufferLength table = table.length

def Summed (table : Bytes) : Prop := (table.map UInt8.toNat).sum % 0x100 = 0

theorem sum_set_zero {index : Nat} (bound : index < table.length) :
    ((table.set index 0).map UInt8.toNat).sum + byteAt table index = (table.map UInt8.toNat).sum := by
  induction table generalizing index with
  | nil => cases bound
  | cons byte rest ih =>
    cases index with
    | zero =>
      rw [set_cons_zero, map_cons, map_cons, sum_cons, sum_cons]
      rw [show byteAt (byte :: rest) 0 = byte.toNat from rfl, UInt8.toNat_zero]
      omega
    | succ index =>
      have behind := ih (Nat.lt_of_succ_lt_succ bound)
      rw [set_cons_succ, map_cons, map_cons, sum_cons, sum_cons]
      rw [show byteAt (byte :: rest) (index + 1) = byteAt rest index from rfl]
      omega

theorem updateChecksum_summed (formed : WellFormed table) (room : 36 ≤ table.length)
    (summed : Summed table) : updateChecksum table = table := by
  have bound : checksumField < table.length := by
    rw [checksumField]
    omega
  have cleared : store table 1 checksumField 0 = table.set checksumField 0 := rfl
  have length : bufferLength (table.set checksumField 0) = table.length := by
    rw [← cleared, ← formed]
    exact load_store_apart table 1 checksumField 0 4 lengthField bound (.inr (by decide))
  have value : calculateCheckSum8 (table.set checksumField 0) = byteAt table checksumField := by
    have total := sum_set_zero bound
    have byte := byteAt_lt table checksumField
    rw [Summed] at summed
    rw [calculateCheckSum8]
    omega
  have whole : (table.set checksumField 0).take table.length = table.set checksumField 0 :=
    take_of_length_le (by rw [length_set])
  rw [updateChecksum]
  simp only [cleared, length, whole, value]
  rw [store, store, set_set]
  refine store_present (show checksumField + 1 ≤ table.length from bound) ?_
  rw [load, load, mul_zero, add_zero, Nat.pow_one]
  exact (Nat.mod_eq_of_lt (byteAt_lt table checksumField)).symm

end Checksum

section Tables

variable {regions : List Region} {table : Bytes} {available : Nat → Bool} {tables : AcpiTables}

theorem relocation_inside (formed : WellFormed table) {index : Nat} (member : index ∈ positions table)
    {patch : Patch} (found : relocation regions (bufferLength table) table index = some patch) :
    patch.Inside table := by
  obtain ⟨name, place, region, at', -, rfl⟩ := relocation_eq_some found
  have inside := regionAt_inside (mem_positions.mp member).2 at'
  rw [formed] at inside
  exact inside.1

theorem acpiRelocateTableRegions_same (formed : WellFormed table)
    (present : ∀ index ∈ positions table, ∀ patch,
      relocation regions (bufferLength table) table index = some patch → patch.Present table)
    (summed : (∃ index ∈ positions table,
      (relocation regions (bufferLength table) table index).isSome) → Summed table) :
    acpiRelocateTableRegions regions table = table := by
  have each : ∀ index ∈ positions table, ∀ patch,
      relocation regions (bufferLength table) table index = some patch →
        patch.Inside table ∧ patch.Present table := fun index member patch found =>
    ⟨relocation_inside formed member found, present index member patch found⟩
  rw [acpiRelocateTableRegions, relocateRegionsAt_present false each, Bool.false_or]
  simp only
  split
  next modified =>
    obtain ⟨index, member, found⟩ := any_eq_true.mp modified
    have long := (mem_positions.mp member)
    rw [formed] at long
    exact updateChecksum_summed formed (by omega) (summed ⟨index, member, found⟩)
  next => rfl

/-- What is found beforehand at an index is there at the end, when no other region
disputes it and the checksum lies elsewhere. -/
theorem acpiRelocateTableRegions_patched (formed : WellFormed table) {index : Nat} {patch : Patch}
    (member : index ∈ positions table)
    (found : relocation regions (bufferLength table) table index = some patch)
    (rigid : Rigid (relocation regions (bufferLength table)) (positions table) table)
    (undisputed : Undisputed (relocation regions (bufferLength table)) (positions table) table patch)
    (apart : Apart checksumField 1 patch.offset patch.width) :
    patch.Present (acpiRelocateTableRegions regions table) := by
  have inside : ∀ index ∈ positions table, ∀ patch,
      relocation regions (bufferLength table) table index = some patch → patch.Inside table :=
    fun index member patch found => relocation_inside formed member found
  have patched := scan_patched rigid inside found undisputed (.refl _ _) (fun _ member => member)
    (.inl member)
  have length := (scan_sameOutside rigid inside (.refl _ _) fun _ member => member).length
  have long := mem_positions.mp member
  rw [formed] at long
  have room : checksumField + 1 ≤ table.length := by
    rw [checksumField]
    omega
  rw [acpiRelocateTableRegions, relocateRegionsAt_table]
  split
  next =>
    rw [Patch.Present, updateChecksum]
    simp only
    rw [load_store_apart _ _ _ _ _ _ (by rw [store_length, length]; exact room) apart,
      load_store_apart _ _ _ _ _ _ (by rw [length]; exact room) apart]
    exact patched
  next => exact patched

theorem relocateTables_same {slot : Nat} {rest : List Bytes}
    (same : ∀ table ∈ rest, isSecondary table = true → acpiRelocateTableRegions regions table = table) :
    relocateTables regions available slot rest = rest := by
  induction rest generalizing slot with
  | nil => rfl
  | cons table rest ih =>
    have behind := @ih (slot + 1) fun other member => same other (mem_cons_of_mem _ member)
    rw [relocateTables]
    split
    next secondary =>
      split
      next => rw [same table mem_cons_self secondary, behind]
      next => rfl
    next => rw [behind]

theorem acpiRelocateRegions_same
    (same : ∀ table ∈ tables.scanned, acpiRelocateTableRegions regions table = table) :
    acpiRelocateRegions regions available tables = tables := by
  obtain ⟨dsdt, rest⟩ := tables
  have secondary := @relocateTables_same regions available 1 rest fun table member marked =>
    same table (mem_append_right _ (mem_filter.mpr ⟨member, marked⟩))
  rw [acpiRelocateRegions]
  split
  next => rfl
  next =>
    cases dsdt with
    | none => simp only [secondary]
    | some dsdt =>
      simp only
      split
      next => rw [secondary, same dsdt mem_cons_self]
      next => rfl

inductive Scanned (tables : AcpiTables) : Nat → Bytes → Prop where
  | dsdt (table : Bytes) : tables.dsdt = some table → Scanned tables 0 table
  | secondary (slot : Nat) (table : Bytes) : tables.tables[slot]? = some table →
      isSecondary table = true → Scanned tables (slot + 1) table

def slotOf (tables : AcpiTables) : Nat → Option Bytes
  | 0 => tables.dsdt
  | slot + 1 => tables.tables[slot]?

theorem relocateTables_at {start slot : Nat} {rest : List Bytes}
    (reached : ∀ slot, available slot = true) (at' : rest[slot]? = some table)
    (secondary : isSecondary table = true) :
    (relocateTables regions available start rest)[slot]? =
      some (acpiRelocateTableRegions regions table) := by
  induction rest generalizing start slot with
  | nil => cases at'
  | cons first rest ih =>
    rw [relocateTables, if_pos (reached start)]
    cases slot with
    | zero =>
      cases at'
      rw [if_pos secondary]
      rfl
    | succ slot =>
      split <;> exact ih at'

theorem acpiRelocateRegions_slot {slot : Nat} (present : regions ≠ [])
    (reached : ∀ slot, available slot = true) (scanned : Scanned tables slot table) :
    slotOf (acpiRelocateRegions regions available tables) slot =
      some (acpiRelocateTableRegions regions table) := by
  rw [acpiRelocateRegions, if_neg (by simpa using present)]
  cases scanned with
  | dsdt table stored =>
    rw [stored]
    simp only [reached, if_true]
    rfl
  | secondary slot table stored marked =>
    cases tables.dsdt with
    | none => exact relocateTables_at reached stored marked
    | some dsdt =>
      simp only [reached, if_true]
      exact relocateTables_at reached stored marked

end Tables

section Regions

def NamesAgree (tables : List Bytes) : Prop :=
  ∀ first ∈ tables, ∀ second ∈ tables, ∀ index ∈ positions first, ∀ index' ∈ positions second,
    ∀ name place place',
      regionAt first (bufferLength first) index = some (name, some place) →
      regionAt second (bufferLength second) index' = some (name, some place') →
        load first place.2 place.1 = load second place'.2 place'.1

def ChecksumsHold (tables : List Bytes) : Prop :=
  ∀ table ∈ tables, (∃ index ∈ positions table, ∃ name place,
    regionAt table (bufferLength table) index = some (name, some place)) → Summed table

/-- What is recognised in a table does not rest on the addresses in it, and the bytes
of this one are shared only with regions that get the same. -/
structure Steady (regions : List Region) (table : Bytes) (patch : Patch) : Prop where
  rigid : Rigid (relocation regions (bufferLength table)) (positions table) table
  undisputed : Undisputed (relocation regions (bufferLength table)) (positions table) table patch
  checksum : Apart checksumField 1 patch.offset patch.width

/-- The addresses come back as they were loaded, and other tables get those loaded
first under the names of their regions: a double word the whole address, a word the
low half. -/
theorem acpiRelocateRegions_relocates (allocates available : Nat → Bool) (before : AcpiTables) :
    let regions := (acpiLoadRegions allocates before).2.regions
    ((∀ table ∈ before.scanned, WellFormed table) → NamesAgree before.scanned →
      ChecksumsHold before.scanned → acpiRelocateRegions regions available before = before) ∧
    ∀ tables slot table index name place region, (∀ slot, available slot = true) →
      Scanned tables slot table → WellFormed table → index ∈ positions table →
      regionAt table (bufferLength table) index = some (name, some place) →
      (regions.find? fun region => region.name = name) = some region →
      Steady regions table ⟨place.1, place.2, region.address⟩ →
      ∃ after, slotOf (acpiRelocateRegions regions available tables) slot = some after ∧
        (place.2 = 4 → load after 4 place.1 = region.address) ∧
        (place.2 = 2 → load after 2 place.1 = region.address % u16) := by
  intro regions
  have sourced := @acpiLoadRegions_sourced allocates before
  constructor
  · refine fun formed agree summed => acpiRelocateRegions_same fun table member => ?_
    refine acpiRelocateTableRegions_same (formed table member) (fun index at' patch found => ?_) ?_
    · obtain ⟨name, place, region, read, known, rfl⟩ := relocation_eq_some found
      obtain ⟨source, listed, index', within, place', read', address⟩ :=
        sourced region (mem_of_find?_eq_some known)
      have named : region.name = name := by simpa using find?_some known
      rw [named] at read'
      have same := agree table member source listed index at' index' within name place place' read read'
      rw [Patch.Present, ← address, ← same]
      exact (Nat.mod_eq_of_lt (load_lt table place.2 place.1)).symm
    · rintro ⟨index, at', found⟩
      obtain ⟨patch, found⟩ := Option.isSome_iff_exists.mp found
      obtain ⟨name, place, -, read, -⟩ := relocation_eq_some found
      exact summed table member ⟨index, at', name, place, read⟩
  · intro tables slot table index name place region reached scanned formed member read known steady
    have found := relocation_of read known
    have present : regions ≠ [] := ne_nil_of_mem (mem_of_find?_eq_some known)
    have patched := acpiRelocateTableRegions_patched formed member found steady.rigid
      steady.undisputed steady.checksum
    refine ⟨_, acpiRelocateRegions_slot present reached scanned, fun wide => ?_, fun narrow => ?_⟩
    · obtain ⟨source, -, index', within, place', read', address⟩ :=
        sourced region (mem_of_find?_eq_some known)
      have width := (regionAt_inside (mem_positions.mp within).2 read').2
      have small : region.address < 256 ^ 4 := by
        rw [← address]
        exact lt_of_lt_of_le (load_lt source place'.2 place'.1)
          (Nat.pow_le_pow_right (by decide) width)
      rw [Patch.Present] at patched
      simp only [wide] at patched
      rw [patched, Nat.mod_eq_of_lt small]
    · rw [Patch.Present] at patched
      simp only [narrow] at patched
      exact patched

end Regions

section Samples

def sampleRegion (address : Nat) : Bytes :=
  [0x5B, 0x80, 0x52, 0x45, 0x47, 0x41, 0x00, 0x0C] ++ encode 4 address ++ [0x0A, 0x10]

def sampleTable (signature : Bytes) (checksum : UInt8) (body : Bytes) : Bytes :=
  signature ++ encode 4 (36 + body.length) ++ [2, checksum] ++ replicate 26 0 ++ body

def regionTable (checksum : UInt8) (address : Nat) : Bytes :=
  sampleTable [0x53, 0x53, 0x44, 0x54] checksum (sampleRegion address ++ [0, 0])

def scopedTable : Bytes :=
  sampleTable [0x44, 0x53, 0x44, 0x54] 0xE2
    ([0x10, 0x13, 0x44, 0x45, 0x56, 0x41] ++ sampleRegion 0xFED10000 ++
      [0x10, 0x13, 0x44, 0x45, 0x56, 0x42] ++ sampleRegion 0xFED20000 ++
      [0x08, 0x4E, 0x41, 0x4D, 0x45, 0x0A, 0x01])

/-- The region of the second scope gets the address of the first. -/
theorem scopedTable_confused :
    let tables : AcpiTables := ⟨some scopedTable, []⟩
    let regions := (acpiLoadRegions (fun _ => true) tables).2.regions
    WellFormed scopedTable ∧ Summed scopedTable ∧
      acpiRelocateRegions regions (fun _ => true) tables ≠ tables ∧
      load scopedTable 4 70 = 0xFED20000 ∧
      (slotOf (acpiRelocateRegions regions (fun _ => true) tables) 0).map (fun after => load after 4 70) =
        some 0xFED10000 := by
  have relocated : (slotOf (acpiRelocateRegions
      (acpiLoadRegions (fun _ => true) ⟨some scopedTable, []⟩).2.regions (fun _ => true)
        ⟨some scopedTable, []⟩) 0).map (fun after => load after 4 70) = some 0xFED10000 := by
    decide
  have loaded : load scopedTable 4 70 = 0xFED20000 := by decide
  refine ⟨by unfold WellFormed; decide, by unfold Summed; decide, fun same => ?_,
    loaded, relocated⟩
  rw [same, slotOf, Option.map_some, loaded] at relocated
  exact absurd (Option.some.inj relocated) (by decide)

def firmwareTable : Bytes := regionTable 0x9D 0xFED10000
def replacedTable : Bytes := regionTable 0x9A 0xFED40000

def firmwareRegion : Region := ⟨[0x52, 0x45, 0x47, 0x41], 0xFED10000⟩

theorem replacedTable_found (rest : Bytes) : regionAt (replacedTable.take 44 ++ rest) 52 36 =
    some ([0x52, 0x45, 0x47, 0x41], some (44, 4)) := by
  have head : replacedTable.take 44 = [0x53, 0x53, 0x44, 0x54, 52, 0, 0, 0, 2, 0x9A] ++
      replicate 26 0 ++ [0x5B, 0x80, 0x52, 0x45, 0x47, 0x41, 0x00, 0x0C] := by decide
  rw [head]
  rfl

theorem replacedTable_relocation (rest : Bytes) :
    relocation [firmwareRegion] 52 (replacedTable.take 44 ++ rest) 36 = some ⟨44, 4, 0xFED10000⟩ := by
  have known : ([firmwareRegion].find? fun region => region.name = [0x52, 0x45, 0x47, 0x41]) =
      some firmwareRegion := by decide
  exact relocation_of (replacedTable_found rest) known

theorem replacedTable_rigid : Rigid (relocation [firmwareRegion] 52) [36] replacedTable := by
  have whole := replacedTable_relocation (replacedTable.drop 44)
  have size : replacedTable.length = 52 := by decide
  rw [take_append_drop] at whole
  intro after same position member
  obtain rfl := mem_singleton.mp member
  have length := same.length
  have head : after.take 44 = replacedTable.take 44 := by
    apply ext_getElem?
    intro index
    rcases Nat.lt_or_ge index 44 with before | behind
    · have bytes := same.bytes index fun position member patch met => by
        rw [mem_singleton.mp member, whole] at met
        cases met
        exact .inl before
      rw [getElem?_take_of_lt before, getElem?_take_of_lt before,
        getElem?_eq_getElem (by omega), getElem?_eq_getElem (by omega)]
      rw [byteAt, byteAt, getD_eq_getElem?_getD, getD_eq_getElem?_getD,
        getElem?_eq_getElem (by omega), getElem?_eq_getElem (by omega)] at bytes
      exact congrArg some (UInt8.toNat_inj.mp bytes)
    · rw [getElem?_take_eq_none behind, getElem?_take_eq_none behind]
  rw [← take_append_drop 44 after, head]
  exact (replacedTable_relocation _).trans whole.symm

theorem replacedTable_steady : Steady [firmwareRegion] replacedTable ⟨44, 4, 0xFED10000⟩ := by
  have size : bufferLength replacedTable = 52 := by decide
  have only : positions replacedTable = [36] := by decide
  have whole := replacedTable_relocation (replacedTable.drop 44)
  rw [take_append_drop] at whole
  refine ⟨?_, fun position member other met => .inl ?_, .inl (by decide)⟩
  · rw [size, only]
    exact replacedTable_rigid
  · rw [only] at member
    rw [size, mem_singleton.mp member, whole] at met
    exact (Option.some.inj met).symm

theorem firmwareTable_loaded :
    (acpiLoadRegions (fun _ => true) ⟨none, [firmwareTable]⟩).2.regions = [firmwareRegion] := by
  decide

/-- The tables of the firmware come back, and the table that replaces them gets the
address. -/
theorem regionTables_relocated :
    acpiRelocateRegions (acpiLoadRegions (fun _ => true) ⟨none, [firmwareTable]⟩).2.regions
        (fun _ => true) ⟨none, [firmwareTable]⟩ = ⟨none, [firmwareTable]⟩ ∧
      ∃ after, slotOf (acpiRelocateRegions [firmwareRegion] (fun _ => true) ⟨none, [replacedTable]⟩) 1 =
        some after ∧ load after 4 44 = 0xFED10000 := by
  obtain ⟨same, relocated⟩ := acpiRelocateRegions_relocates (fun _ => true) (fun _ => true)
    ⟨none, [firmwareTable]⟩
  have scanned : AcpiTables.scanned ⟨none, [firmwareTable]⟩ = [firmwareTable] := by decide
  have only : positions firmwareTable = [36] := by decide
  constructor
  · apply same
    · rw [scanned]
      exact forall_mem_singleton.mpr (by unfold WellFormed; decide)
    · rw [scanned]
      intro first member second member' index at' index' at'' name place place' read read'
      rw [mem_singleton.mp member] at at' read ⊢
      rw [mem_singleton.mp member'] at at'' read' ⊢
      rw [only] at at' at''
      rw [mem_singleton.mp at'] at read
      rw [mem_singleton.mp at'', read] at read'
      cases read'
      rfl
    · rw [scanned]
      exact forall_mem_singleton.mpr fun _ => by unfold Summed; decide
  · rw [firmwareTable_loaded] at relocated
    obtain ⟨after, slot, wide, -⟩ := relocated ⟨none, [replacedTable]⟩ 1 replacedTable 36
      [0x52, 0x45, 0x47, 0x41] (44, 4) firmwareRegion (fun _ => rfl)
      (.secondary 0 _ rfl (by decide)) (by unfold WellFormed; decide) (by decide)
      (by decide) rfl replacedTable_steady
    exact ⟨after, slot, wide rfl⟩

end Samples

end OpenCore.AcpiRelocation
