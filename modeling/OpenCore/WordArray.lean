import Mathlib.Data.Nat.Digits.Lemmas
import Mathlib.Tactic.Ring

/-!
Numbers as arrays of machine words, the least significant word first. The width
of a word is arbitrary. A word is a bit vector, so its arithmetic wraps as the
hardware's does, and `value` reads an array as the number it stands for.
-/

namespace OpenCore.WordArray

variable {width : Nat}

def value (words : List (BitVec width)) : Nat :=
  Nat.ofDigits (2 ^ width) (words.map BitVec.toNat)

def capacity (width count : Nat) : Nat := (2 ^ width) ^ count

theorem capacity_succ (count : Nat) :
    capacity width (count + 1) = 2 ^ width * capacity width count := by
  rw [capacity, capacity, pow_succ, mul_comm]

theorem capacity_eq_two_pow (count : Nat) : capacity width count = 2 ^ (width * count) := by
  rw [capacity, ← Nat.pow_mul]

theorem capacity_pos (count : Nat) : 0 < capacity width count := by
  unfold capacity
  positivity

@[simp] theorem value_nil : value ([] : List (BitVec width)) = 0 := rfl

@[simp] theorem value_cons (word : BitVec width) (rest : List (BitVec width)) :
    value (word :: rest) = word.toNat + 2 ^ width * value rest := by
  simp [value, Nat.ofDigits_cons]

theorem value_append (low high : List (BitVec width)) :
    value (low ++ high) = value low + capacity width low.length * value high := by
  simp [value, capacity, Nat.ofDigits_append]

@[simp] theorem value_replicate_zero (count : Nat) :
    value (List.replicate count (BitVec.ofNat width 0)) = 0 := by
  induction count with
  | zero => rfl
  | succ count ih => simp [List.replicate_succ, ih]

theorem value_lt (words : List (BitVec width)) : value words < capacity width words.length := by
  induction words with
  | nil => simp [capacity]
  | cons word rest ih =>
    rw [value_cons, List.length_cons, capacity_succ]
    calc word.toNat + 2 ^ width * value rest
        < 2 ^ width + 2 ^ width * value rest := Nat.add_lt_add_right word.isLt _
      _ = 2 ^ width * (value rest + 1) := by ring
      _ ≤ 2 ^ width * capacity width rest.length := Nat.mul_le_mul_left _ ih

theorem value_injective {left right : List (BitVec width)} (lengths : left.length = right.length)
    (same : value left = value right) : left = right := by
  induction left generalizing right with
  | nil =>
    cases right with
    | nil => rfl
    | cons word rest => cases lengths
  | cons word rest ih =>
    cases right with
    | nil => cases lengths
    | cons word' rest' =>
      rw [value_cons, value_cons] at same
      have low : word.toNat = word'.toNat := by
        have reduced := congrArg (· % 2 ^ width) same
        simpa [Nat.add_mul_mod_self_left, Nat.mod_eq_of_lt word.isLt,
          Nat.mod_eq_of_lt word'.isLt] using reduced
      have high : value rest = value rest' := by
        rw [low] at same
        exact Nat.eq_of_mul_eq_mul_left (by positivity) (Nat.add_left_cancel same)
      have lengths' : rest.length = rest'.length := Nat.succ.inj lengths
      rw [BitVec.eq_of_toNat_eq low, ih lengths' high]

theorem value_take_drop (count : Nat) (words : List (BitVec width)) (inside : count ≤ words.length) :
    value words = value (words.take count) + capacity width count * value (words.drop count) := by
  have whole := value_append (words.take count) (words.drop count)
  rw [List.take_append_drop, List.length_take, min_eq_left inside] at whole
  exact whole

theorem value_take_succ (words : List (BitVec width)) {count : Nat}
    (inside : count < words.length) :
    value (words.take (count + 1)) =
      value (words.take count) + capacity width count * (words.getD count 0).toNat := by
  rw [List.take_succ_eq_append_getElem inside, value_append, List.length_take,
    min_eq_left (le_of_lt inside)]
  simp [List.getD, List.getElem?_eq_getElem inside]

end OpenCore.WordArray
