import OpenCore.Base
import OpenCore.ByteSlices

/-!
A RAM disk is a table of extents. The biggest free areas are taken for it until the
size is reached, with the table itself in the first page, and a file is loaded over
the extents in portions, unless one of its calls fails. What is read is a part of the
extents put together.
-/

namespace OpenCore.RamDisk

open Base ByteBuffer ByteSlices List

def efiPageSize : Nat := 4096
def appleRamDiskMaxExtents : Nat := 0xFE
def base4MB : Nat := 0x400000

/-- The pages of the biggest entries of the memory map, turn by turn: above 4 GB and
then anywhere, and once more anywhere. -/
structure MemoryMap where
  high : List Nat
  remaining : List Nat
  anywhere : List Nat
  deriving DecidableEq

section Allocation

def internalAddAllocatedArea : Option (List Nat) → Nat → List Nat
  | none, size => if size = efiPageSize then [] else [size - efiPageSize]
  | some extents, size => extents ++ [size]

def internalAllocateRemainingSize :
    List Nat → Nat → Option (List Nat) → Nat × Option (List Nat)
  | [], remaining, table => (remaining, table)
  | pages :: areas, remaining, table =>
    if remaining = 0 ∨ appleRamDiskMaxExtents ≤ (table.getD []).length then (remaining, table)
    else if pages = 0 then (remaining, table)
    else
      let used := min (pages * efiPageSize) remaining
      internalAllocateRemainingSize areas (remaining - used)
        (some (internalAddAllocatedArea table used))

def internalAppleRamDiskAllocate (map : MemoryMap) (size : Nat) (preferHighMem : Bool) :
    Option (List Nat) :=
  (baseOverflowAdd u64 size efiPageSize).bind fun total =>
    let high := if preferHighMem then internalAllocateRemainingSize map.high total none
      else (total, none)
    let allocated := internalAllocateRemainingSize
      (if preferHighMem then map.remaining else map.anywhere) high.1 high.2
    if 0 < allocated.1 then none else allocated.2

def ocAppleRamDiskAllocate (map : MemoryMap) (size : Nat) : Option (List Nat) :=
  match internalAppleRamDiskAllocate map size true with
  | some extents => some extents
  | none => internalAppleRamDiskAllocate map size false

end Allocation

section Contents

abbrev ExtentTable := List Bytes

/-- A file: what it holds, the positions that can be set, and how much the read of a size
at a position gives, if it succeeds. -/
structure File where
  contents : Bytes
  setPosition : Nat → Bool
  read : Nat → Nat → Option Nat

def File.readAt (file : File) (position size : Nat) : Option Bytes :=
  (file.read position size).map fun given => slice file.contents position (min given size)

def loadPortions (file : File) : Nat → Nat → Nat → Option Bytes
  | 0, _, _ => some []
  | left + 1, position, size =>
    if size = 0 then some []
    else if file.setPosition position then
      let requested := min base4MB size
      (file.readAt position requested).bind fun read =>
        if read.length ≠ requested then none
        else (loadPortions file left (position + requested) (size - requested)).map (read ++ ·)
    else none

def loadExtents (file : File) : List Nat → Nat → Nat → Option (ExtentTable × Nat)
  | [], _, fileSize => some ([], fileSize)
  | length :: lengths, position, fileSize =>
    let size := min fileSize length
    (loadPortions file ((size + (base4MB - 1)) / base4MB) position size).bind fun data =>
      (loadExtents file lengths (position + size) (fileSize - size)).map fun loaded =>
        ((data ++ replicate (length - size) 0) :: loaded.1, loaded.2)

/-- `TmpBuffer`, which every portion goes through, has to be allocated first. -/
def ocAppleRamDiskLoadFile (allocatePool : Nat → Bool) (file : File) (extents : List Nat)
    (fileSize : Nat) : Option ExtentTable :=
  if allocatePool base4MB then
    (loadExtents file extents 0 fileSize).bind fun loaded =>
      if loaded.2 ≠ 0 then none else some loaded.1
  else none

def readExtents : ExtentTable → Nat → Nat → Nat → Option Bytes
  | [], _, _, _ => none
  | extent :: rest, current, offset, size =>
    if current ≤ offset ∧ offset - current < extent.length then
      let localOffset := offset - current
      let localSize := min (extent.length - localOffset) size
      let data := slice extent localOffset localSize
      if size - localSize = 0 then some data
      else
        (readExtents rest (current + extent.length) (offset + localSize) (size - localSize)).map
          (data ++ ·)
    else readExtents rest (current + extent.length) offset size

def ocAppleRamDiskRead (table : ExtentTable) (offset size : Nat) : Option Bytes :=
  readExtents table 0 offset size

end Contents

section Allocated

variable {extents : List Nat} {map : MemoryMap} {size : Nat}

def Allocates (size : Nat) : Nat → Option (List Nat) → Prop
  | remaining, none => remaining = size + efiPageSize
  | remaining, some extents => extents.sum + remaining = size

theorem internalAllocateRemainingSize_allocates {size remaining : Nat} {areas : List Nat}
    {table : Option (List Nat)} (allocates : Allocates size remaining table) :
    Allocates size (internalAllocateRemainingSize areas remaining table).1
      (internalAllocateRemainingSize areas remaining table).2 := by
  induction areas generalizing remaining table with
  | nil => exact allocates
  | cons pages areas ih =>
    rw [internalAllocateRemainingSize]
    split
    · exact allocates
    · split
      · exact allocates
      · next some =>
          apply ih
          have page : efiPageSize ≤ pages * efiPageSize :=
            Nat.le_mul_of_pos_left _ (Nat.pos_of_ne_zero some)
          cases table with
          | none =>
            have whole : remaining = size + efiPageSize := allocates
            simp only [internalAddAllocatedArea, Allocates]
            split
            · rw [sum_nil]
              omega
            · rw [sum_singleton]
              omega
          | some extents =>
            have whole : extents.sum + remaining = size := allocates
            simp only [internalAddAllocatedArea, Allocates, sum_append, sum_singleton]
            omega

theorem internalAppleRamDiskAllocate_sum {preferHighMem : Bool}
    (allocated : internalAppleRamDiskAllocate map size preferHighMem = some extents) :
    extents.sum = size := by
  obtain ⟨total, added, allocated⟩ := Option.bind_eq_some_iff.mp allocated
  obtain ⟨rfl, _⟩ := baseOverflowAdd_eq_some added
  have start : Allocates size (size + efiPageSize) none := rfl
  have ends : ∀ areas remaining table, Allocates size remaining table →
      (if 0 < (internalAllocateRemainingSize areas remaining table).1 then none
        else (internalAllocateRemainingSize areas remaining table).2) = some extents →
      extents.sum = size := by
    intro areas remaining table allocates done
    have after := @internalAllocateRemainingSize_allocates size remaining areas table allocates
    split at done
    · cases done
    · rw [done] at after
      have whole : extents.sum + _ = size := after
      omega
  cases preferHighMem with
  | false => exact ends _ _ _ start allocated
  | true => exact ends _ _ _ (internalAllocateRemainingSize_allocates start) allocated

theorem ocAppleRamDiskAllocate_sum
    (allocated : ocAppleRamDiskAllocate map size = some extents) : extents.sum = size := by
  unfold ocAppleRamDiskAllocate at allocated
  split at allocated
  · next first =>
      cases allocated
      exact internalAppleRamDiskAllocate_sum first
  · exact internalAppleRamDiskAllocate_sum allocated

end Allocated

section Loaded

variable {file : File} {allocatePool : Nat → Bool} {data : Bytes}
variable {table : ExtentTable} {lengths : List Nat} {position size : Nat}

theorem loadPortions_eq {left : Nat} (loaded : loadPortions file left position size = some data)
    (enough : size ≤ left * base4MB) :
    data = slice file.contents position size ∧ data.length = size := by
  induction left generalizing position size data with
  | zero =>
    have none : size = 0 := by omega
    subst none
    cases loaded
    exact ⟨rfl, rfl⟩
  | succ left ih =>
    rw [loadPortions] at loaded
    split at loaded
    · next none =>
        subst none
        cases loaded
        exact ⟨rfl, rfl⟩
    split at loaded
    · obtain ⟨read, given, loaded⟩ := Option.bind_eq_some_iff.mp loaded
      obtain ⟨count, -, rfl⟩ := Option.map_eq_some_iff.mp given
      split at loaded
      · cases loaded
      · next whole =>
          obtain ⟨rest, later, rfl⟩ := Option.map_eq_some_iff.mp loaded
          have length := not_not.mp whole
          have full : min count (min base4MB size) = min base4MB size := by
            rw [slice, length_take] at length
            omega
          rw [full] at length ⊢
          rw [Nat.succ_mul] at enough
          obtain ⟨same, size'⟩ := ih later (by omega)
          have split : size = min base4MB size + (size - min base4MB size) := by omega
          constructor
          · rw [same, ← slice_add, ← split]
          · rw [length_append, length, size']
            omega
    · cases loaded

theorem loadExtents_flatten {fileSize left : Nat}
    (loaded : loadExtents file lengths position fileSize = some (table, left))
    (exact : lengths.sum = fileSize) :
    table.flatten = slice file.contents position fileSize := by
  induction lengths generalizing position fileSize table left with
  | nil =>
    cases loaded
    rw [← exact]
    rfl
  | cons length lengths ih =>
    rw [sum_cons] at exact
    obtain ⟨data, portions, loaded⟩ := Option.bind_eq_some_iff.mp loaded
    obtain ⟨⟨rest, left'⟩, later, same⟩ := Option.map_eq_some_iff.mp loaded
    cases same
    have size : min fileSize length = length := by omega
    rw [size] at portions later ⊢
    obtain ⟨rfl, _⟩ := loadPortions_eq portions (by rw [base4MB]; omega)
    have tail := ih later (by omega)
    rw [flatten_cons, tail, Nat.sub_self, replicate_zero, append_nil,
      ← slice_add, Nat.add_sub_of_le (by omega)]

theorem ocAppleRamDiskLoadFile_flatten
    (loaded : ocAppleRamDiskLoadFile allocatePool file lengths file.contents.length = some table)
    (exact : lengths.sum = file.contents.length) : table.flatten = file.contents := by
  rw [ocAppleRamDiskLoadFile] at loaded
  split at loaded
  · obtain ⟨⟨table', left⟩, extents, ends⟩ := Option.bind_eq_some_iff.mp loaded
    split at ends
    · cases ends
    · cases ends
      rw [loadExtents_flatten extents exact, slice, drop_zero, take_length]
  · cases loaded

end Loaded

section Reading

def readWhole (contents : Bytes) (offset size : Nat) : Option Bytes :=
  if offset < contents.length ∧ offset + size ≤ contents.length then some (slice contents offset size)
  else none

theorem readExtents_eq {table : ExtentTable} {current offset size : Nat} (reached : current ≤ offset) :
    readExtents table current offset size = readWhole table.flatten (offset - current) size := by
  induction table generalizing current offset size with
  | nil =>
    rw [readExtents, readWhole, if_neg]
    simp
  | cons extent rest ih =>
    rw [readExtents, flatten_cons]
    split
    · next here =>
        simp only
        split
        · next all =>
            have inside : offset - current + size ≤ extent.length := by omega
            have whole : min (extent.length - (offset - current)) size = size := by omega
            rw [readWhole, if_pos, whole, slice_append_left inside]
            rw [length_append]
            omega
        · next more =>
            have part : min (extent.length - (offset - current)) size =
                extent.length - (offset - current) := by omega
            have place : offset + (extent.length - (offset - current)) =
                current + extent.length := by omega
            rw [part, ih (by omega), place, Nat.sub_self]
            have split : size = extent.length - (offset - current) +
                (size - (extent.length - (offset - current))) := by omega
            have front : slice (extent ++ rest.flatten) (offset - current)
                (extent.length - (offset - current)) =
                  slice extent (offset - current) (extent.length - (offset - current)) :=
              slice_append_left (by omega)
            have behind := slice_append_right extent rest.flatten 0
              (size - (extent.length - (offset - current)))
            have joint := slice_add (extent ++ rest.flatten) (offset - current)
              (extent.length - (offset - current)) (size - (extent.length - (offset - current)))
            rw [← split, front, Nat.add_sub_of_le (by omega)] at joint
            rw [add_zero] at behind
            rw [behind] at joint
            rw [readWhole, readWhole]
            by_cases fits : size - (extent.length - (offset - current)) ≤ rest.flatten.length
            · rw [if_pos (by omega), if_pos, joint, Option.map_some]
              rw [length_append]
              omega
            · rw [if_neg (by omega), if_neg, Option.map_none]
              rw [length_append]
              omega
    · next other =>
        rw [ih (by omega), readWhole, readWhole, length_append]
        by_cases fits : offset - (current + extent.length) < rest.flatten.length ∧
            offset - (current + extent.length) + size ≤ rest.flatten.length
        · have place : offset - current = extent.length + (offset - (current + extent.length)) := by
            omega
          rw [if_pos fits, if_pos (by omega), place, slice_append_right]
        · rw [if_neg fits, if_neg (by omega)]

theorem ocAppleRamDiskRead_eq (table : ExtentTable) (offset size : Nat) :
    ocAppleRamDiskRead table offset size = readWhole table.flatten offset size :=
  readExtents_eq (Nat.zero_le offset)

end Reading

section Disk

variable {file : File} {allocatePool : Nat → Bool} {lengths : List Nat} {position size : Nat}

/-- The positions and sizes that are read for an extent. -/
def portions : Nat → Nat → Nat → List (Nat × Nat)
  | 0, _, _ => []
  | left + 1, position, size =>
    if size = 0 then []
    else
      let requested := min base4MB size
      (position, requested) :: portions left (position + requested) (size - requested)

def diskPortions : List Nat → Nat → List (Nat × Nat)
  | [], _ => []
  | length :: lengths, position =>
    portions ((length + (base4MB - 1)) / base4MB) position length ++
      diskPortions lengths (position + length)

/-- The position can be set, and the read gives all that is asked for. -/
def File.Serves (file : File) (portion : Nat × Nat) : Prop :=
  file.setPosition portion.1 = true ∧ ∃ given, file.read portion.1 portion.2 = some given ∧
    portion.2 ≤ given

theorem loadPortions_isSome {left : Nat} (within : position + size ≤ file.contents.length) :
    (loadPortions file left position size).isSome ↔
      ∀ portion ∈ portions left position size, file.Serves portion := by
  induction left generalizing position size with
  | zero => simp [loadPortions, portions]
  | succ left ih =>
    have later := @ih (position + min base4MB size) (size - min base4MB size) (by omega)
    rw [loadPortions, portions]
    split
    · simp
    rw [forall_mem_cons, ← later]
    split
    · next set =>
        cases given : file.read position (min base4MB size) with
        | none =>
          have unserved : ¬ file.Serves (position, min base4MB size) := by
            simp [File.Serves, given]
          simp [File.readAt, given, unserved]
        | some count =>
          have served : file.Serves (position, min base4MB size) ↔ min base4MB size ≤ count := by
            simp only [File.Serves, set, given, true_and, Option.some.injEq, exists_eq_left']
          have taken : (slice file.contents position (min count (min base4MB size))).length =
              min count (min base4MB size) := length_slice (by omega)
          rw [served]
          simp only [File.readAt, given, Option.map_some, Option.bind_some]
          by_cases full : min base4MB size ≤ count
          · rw [Nat.min_eq_right full] at taken ⊢
            simp only [taken, ne_eq, not_true_eq_false, if_false, Option.isSome_map, full, true_and]
          · rw [if_pos (by rw [taken]; omega)]
            simp [full]
    · next unset => simp [File.Serves, unset]

theorem loadExtents_some (exact : lengths.sum = size)
    (within : position + size ≤ file.contents.length) :
    (∃ table, loadExtents file lengths position size = some (table, 0)) ↔
      ∀ portion ∈ diskPortions lengths position, file.Serves portion := by
  induction lengths generalizing position size with
  | nil =>
    rw [sum_nil] at exact
    simp [loadExtents, diskPortions, ← exact]
  | cons length lengths ih =>
    rw [sum_cons] at exact
    have first := @loadPortions_isSome file position length ((length + (base4MB - 1)) / base4MB)
      (by omega)
    have later := @ih (position + length) (size - length) (by omega) (by omega)
    rw [diskPortions, forall_mem_append, ← first, ← later, loadExtents, Nat.min_eq_right (by omega)]
    cases loadPortions file ((length + (base4MB - 1)) / base4MB) position length with
    | none => simp
    | some data => simp [Option.map_eq_some_iff]

/-- With room for the file, however its extents lie, it is loaded exactly when the buffer is
allocated and every portion is served, and a file that was loaded is what the disk holds. -/
theorem loaded_file_read_back {map : MemoryMap}
    (allocated : ocAppleRamDiskAllocate map file.contents.length = some lengths) :
    ((ocAppleRamDiskLoadFile allocatePool file lengths file.contents.length).isSome ↔
      allocatePool base4MB ∧ ∀ portion ∈ diskPortions lengths 0, file.Serves portion) ∧
    ∀ table, ocAppleRamDiskLoadFile allocatePool file lengths file.contents.length = some table →
      ∀ offset size, ocAppleRamDiskRead table offset size =
        readWhole file.contents offset size := by
  have exact := ocAppleRamDiskAllocate_sum allocated
  constructor
  · rw [← loadExtents_some exact (zero_add _).le, ocAppleRamDiskLoadFile]
    split
    · next buffer =>
        simp only [buffer, true_and]
        cases loadExtents file lengths 0 file.contents.length with
        | none => simp
        | some loaded =>
          obtain ⟨table, left⟩ := loaded
          cases left <;> simp
    · next none => simp [none]
  · intro table loaded offset size
    rw [ocAppleRamDiskRead_eq, ocAppleRamDiskLoadFile_flatten loaded exact]

/-- A file none of whose calls fails. -/
def File.reliable (contents : Bytes) : File where
  contents := contents
  setPosition _ := true
  read _ size := some size

/-- A page holds the table, and two extents the file, which is read across them. -/
theorem loaded_file_read_back_pages :
    ∃ table, ocAppleRamDiskLoadFile (fun _ => true)
        (.reliable (replicate 4096 1 ++ [2, 3])) [4096, 2] 4098 = some table ∧
      ocAppleRamDiskRead table 4094 4 = some [1, 1, 2, 3] := by
  have size : (File.reliable (replicate 4096 1 ++ [2, 3])).contents.length = 4098 := by
    rw [File.reliable, length_append, length_replicate]
    rfl
  have allocated : ocAppleRamDiskAllocate ⟨[1, 1, 1], [], []⟩
      (File.reliable (replicate 4096 1 ++ [2, 3])).contents.length = some [4096, 2] := by
    rw [size]
    decide
  obtain ⟨loads, reads⟩ := @loaded_file_read_back _ (fun _ => true) _ _ allocated
  obtain ⟨table, loaded⟩ := Option.isSome_iff_exists.mp
    (loads.mpr ⟨rfl, fun portion _ => ⟨rfl, _, rfl, Nat.le_refl _⟩⟩)
  refine ⟨table, size ▸ loaded, ?_⟩
  have parts : replicate 4096 (1 : UInt8) ++ [2, 3] = replicate 4094 1 ++ [1, 1, 2, 3] := by
    rw [show 4096 = 4094 + 2 from rfl, ← replicate_append_replicate, append_assoc]
    rfl
  have across := slice_append_right (replicate 4094 1) [1, 1, 2, 3] 0 4
  rw [length_replicate] at across
  rw [reads table loaded, readWhole, if_pos (by rw [size]; omega), File.reliable, parts]
  exact congrArg some across

end Disk

end OpenCore.RamDisk
