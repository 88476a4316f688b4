import OpenCore.ByteSlices

/-!
A byte buffer seen as cells of one size: what a write of one cell, and a move of
cells by one place, do to every cell.
-/

namespace OpenCore.Cells

open ByteBuffer ByteSlices List

variable {buffer data : Bytes} {size : Nat}

def cell (buffer : Bytes) (size index : Nat) : Bytes := slice buffer (index * size) size

def cells (buffer : Bytes) (size count : Nat) : List Bytes :=
  (List.range count).map (cell buffer size)

@[simp] theorem length_cells (buffer : Bytes) (size count : Nat) :
    (cells buffer size count).length = count := by simp [cells]

theorem getElem?_cells (buffer : Bytes) (size count index : Nat) :
    (cells buffer size count)[index]? = if index < count then some (cell buffer size index) else none := by
  by_cases inside : index < count
  · rw [if_pos inside, cells, getElem?_map, getElem?_range inside, Option.map_some]
  · rw [if_neg inside, getElem?_eq_none]
    rw [length_cells]
    omega

theorem cells_succ (buffer : Bytes) (size count : Nat) :
    cells buffer size (count + 1) = cells buffer size count ++ [cell buffer size count] := by
  simp [cells, range_succ]

theorem cells_congr {other : Bytes} {count : Nat}
    (same : ∀ index < count, cell other size index = cell buffer size index) :
    cells other size count = cells buffer size count :=
  map_congr_left fun index member => same index (mem_range.mp member)

variable {index count : Nat}

theorem cell_inside (inside : index < count)
    (room : count * size ≤ buffer.length) : index * size + size ≤ buffer.length := by
  have below := Nat.mul_le_mul_right size (Nat.succ_le_of_lt inside)
  rw [Nat.succ_mul] at below
  exact below.trans room

theorem cells_apart {left right : Nat} (different : left ≠ right) :
    Apart (left * size) size (right * size) size := by
  rcases Nat.lt_or_gt_of_ne different with before | behind
  · have below := Nat.mul_le_mul_right size (Nat.succ_le_of_lt before)
    rw [Nat.succ_mul] at below
    exact .inl below
  · have below := Nat.mul_le_mul_right size (Nat.succ_le_of_lt behind)
    rw [Nat.succ_mul] at below
    exact .inr below

theorem cell_write_same {index : Nat} (length : data.length = size)
    (inside : index * size + size ≤ buffer.length) :
    cell (overlay buffer (index * size) data) size index = data := by
  subst length
  exact slice_overlay_same inside

theorem cell_write_other {index other : Nat} (length : data.length = size)
    (different : other ≠ index) :
    cell (overlay buffer (index * size) data) size other = cell buffer size other := by
  subst length
  exact slice_overlay_frame (cells_apart different)

theorem cells_write (length : data.length = size) (inside : index < count)
    (room : count * size ≤ buffer.length) :
    cells (overlay buffer (index * size) data) size count = (cells buffer size count).set index data := by
  apply ext_getElem?
  intro other
  rw [getElem?_set, getElem?_cells, getElem?_cells, length_cells, if_pos inside]
  by_cases same : index = other
  · subst same
    rw [if_pos inside, if_pos rfl, cell_write_same length (cell_inside inside room)]
  · rw [if_neg same, cell_write_other length (Ne.symm same)]

theorem cell_append (behind : Bytes) (inside : index < count)
    (room : count * size ≤ buffer.length) :
    cell (buffer ++ behind) size index = cell buffer size index := by
  have within := cell_inside inside room
  rw [cell, cell, slice, slice, drop_append_of_le_length (by omega),
    take_append_of_le_length (by rw [length_drop]; omega)]

def moved (buffer : Bytes) (size index count : Nat) : Bytes :=
  overlay buffer ((index + 1) * size) (slice buffer (index * size) (count * size))

theorem length_moved (buffer : Bytes) (size index count : Nat) :
    (moved buffer size index count).length = buffer.length := overlay_length _ _ _

theorem cell_moved_before {index count other : Nat} (before : other ≤ index) :
    cell (moved buffer size index count) size other = cell buffer size other := by
  apply slice_overlay_frame
  have below := Nat.mul_le_mul_right size (Nat.succ_le_succ before)
  rw [Nat.succ_mul] at below
  exact .inl below

theorem cell_moved_behind {index count other : Nat} (behind : index < other)
    (covered : other ≤ index + count) (room : (index + 1 + count) * size ≤ buffer.length) :
    cell (moved buffer size index count) size other = cell buffer size (other - 1) := by
  obtain ⟨step, rfl⟩ : ∃ step, other = index + 1 + step := ⟨other - (index + 1), by omega⟩
  have few : step + 1 ≤ count := by omega
  have within := Nat.mul_le_mul_right size few
  simp only [add_mul, one_mul] at within room
  have source : index * size + count * size ≤ buffer.length := by omega
  have length := length_slice source
  have laid : slice (moved buffer size index count) ((index + 1) * size)
      (slice buffer (index * size) (count * size)).length = _ :=
    slice_overlay_same (by rw [length, add_mul]; omega)
  rw [length] at laid
  have place : (index + 1 + step) * size = (index + 1) * size + step * size := add_mul _ _ _
  have before : index + 1 + step - 1 = index + step := by omega
  have inner : slice (slice (moved buffer size index count) ((index + 1) * size) (count * size))
      (step * size) size = _ := slice_slice (by omega)
  rw [cell, place, ← inner, laid, slice_slice (by omega), cell, before, add_mul]

end OpenCore.Cells
