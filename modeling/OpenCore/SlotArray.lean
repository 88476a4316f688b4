import Mathlib.Data.List.Basic

/-!
Arrays of slots that keep entries in front: an entry is added behind the others, and the entries
move to a larger array.
-/

namespace OpenCore.SlotArray

open List

variable {α : Type} {slots : List (Option α)} {entries : List α} {entry : α}

theorem take_set_append (kept : slots.take entries.length = entries.map some)
    (room : entries.length < slots.length) :
    (slots.set entries.length (some entry)).take (entries ++ [entry]).length =
      (entries ++ [entry]).map some := by
  have front : (slots.take entries.length).length = entries.length :=
    length_take_of_le (Nat.le_of_lt room)
  rw [set_eq_take_append_cons_drop, if_pos room, length_append, length_singleton,
    map_append, map_singleton, ← kept, append_cons,
    take_left' (by rw [length_append, front, length_singleton])]

structure Keeps (slots : List (Option α)) (capacity : Nat) (entries : List α) : Prop where
  sized : slots.length = capacity
  room : entries.length ≤ capacity
  front : slots.take entries.length = entries.map some

theorem Keeps.push {capacity : Nat} (keeps : Keeps slots capacity entries)
    (room : entries.length < capacity) :
    Keeps (slots.set entries.length (some entry)) capacity (entries ++ [entry]) where
  sized := by rw [length_set, keeps.sized]
  room := by
    rw [length_append, length_singleton]
    exact room
  front := take_set_append keeps.front (keeps.sized.symm ▸ room)

def moveTo (slots fresh : List (Option α)) (count : Nat) : List (Option α) :=
  slots.take count ++ fresh.drop count

theorem Keeps.moveTo {capacity larger : Nat} {fresh : List (Option α)}
    (keeps : Keeps slots capacity entries) (sized : fresh.length = larger)
    (room : entries.length ≤ larger) :
    Keeps (moveTo slots fresh entries.length) larger entries where
  sized := by
    rw [SlotArray.moveTo, keeps.front, length_append, length_map, length_drop, sized]
    exact Nat.add_sub_cancel' room
  room := room
  front := by
    rw [SlotArray.moveTo, keeps.front]
    exact take_left' (length_map _)

end OpenCore.SlotArray
