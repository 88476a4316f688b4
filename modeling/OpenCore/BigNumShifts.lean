import OpenCore.BigNumPrimitives
import Mathlib.Data.Nat.Bitwise

/-!
What the shifts and the significant-bit counters of `BigNumPrimitives.c` do to the
number an array stands for: a left shift multiplies by a power of two, a right
shift divides by one, and the counters give the binary size.
-/

namespace OpenCore.BigNumShifts

open WordArray BigNumPrimitives

variable {width : Nat}

section Halves
variable {numBits : Nat}

theorem or_halves (high low : Nat) (bits : Nat) (bound : low < 2 ^ bits) :
    2 ^ bits * high ||| low = 2 ^ bits * high + low :=
  (Nat.two_pow_add_eq_or_of_lt bound high).symm

theorem leftWord_value (word below : BitVec width) (inside : numBits ≤ width) :
    (word <<< numBits ||| below >>> (width - numBits)).toNat =
      word.toNat * 2 ^ numBits % 2 ^ width + below.toNat / 2 ^ (width - numBits) := by
  have split : (2 : Nat) ^ width = 2 ^ numBits * 2 ^ (width - numBits) := by
    rw [← pow_add, Nat.add_sub_cancel' inside]
  have carried : below.toNat / 2 ^ (width - numBits) < 2 ^ numBits := by
    apply Nat.div_lt_of_lt_mul
    rw [mul_comm, ← split]
    exact below.isLt
  have aligned : word.toNat * 2 ^ numBits % 2 ^ width =
      2 ^ numBits * (word.toNat % 2 ^ (width - numBits)) := by
    rw [split, mul_comm word.toNat, Nat.mul_mod_mul_left]
  rw [BitVec.toNat_or, BitVec.toNat_shiftLeft, BitVec.toNat_ushiftRight, Nat.shiftLeft_eq,
    Nat.shiftRight_eq_div_pow, aligned, or_halves _ _ _ carried]

theorem leftShiftBits_length (below : BitVec width) (a : List (BitVec width)) :
    (leftShiftBits numBits below a).length = a.length + 1 := by
  induction a generalizing below with
  | nil => rfl
  | cons word a ih => simp [leftShiftBits, ih]

theorem leftShiftBits_value (inside : numBits ≤ width) (below : BitVec width)
    (a : List (BitVec width)) :
    value (leftShiftBits numBits below a) =
      below.toNat / 2 ^ (width - numBits) + 2 ^ numBits * value a := by
  induction a generalizing below with
  | nil => simp [leftShiftBits, Nat.shiftRight_eq_div_pow]
  | cons word a ih =>
    have split : (2 : Nat) ^ width = 2 ^ numBits * 2 ^ (width - numBits) := by
      rw [← pow_add, Nat.add_sub_cancel' inside]
    have carried : word.toNat * 2 ^ numBits / 2 ^ width = word.toNat / 2 ^ (width - numBits) := by
      rw [split, mul_comm word.toNat, Nat.mul_div_mul_left _ _ (by positivity)]
    have whole := Nat.mod_add_div (word.toNat * 2 ^ numBits) (2 ^ width)
    rw [carried] at whole
    rw [leftShiftBits, value_cons, ih word, leftWord_value word below inside, value_cons]
    calc _ = (word.toNat * 2 ^ numBits % 2 ^ width +
          2 ^ width * (word.toNat / 2 ^ (width - numBits))) +
          below.toNat / 2 ^ (width - numBits) + 2 ^ width * (2 ^ numBits * value a) := by ring
      _ = _ := by rw [whole]; ring

end Halves

section LeftShift

theorem bigNumLeftShift_length {numWordsResult exponent : Nat} {a : List (BitVec width)}
    (words : exponent % width ≠ 0 → numWordsResult = a.length + exponent / width + 1)
    (room : exponent % width = 0 → a.length + exponent / width ≤ numWordsResult) :
    (bigNumLeftShift numWordsResult a exponent).length = numWordsResult := by
  by_cases aligned : exponent % width = 0
  · have fits := room aligned
    simp only [bigNumLeftShift, aligned, ne_eq, not_true_eq_false, ↓reduceIte,
      bigNumLeftShiftWords, List.length_append, List.length_replicate, List.length_take]
    omega
  · have exactly := words aligned
    simp only [bigNumLeftShift, aligned, ne_eq, not_false_eq_true, ↓reduceIte,
      bigNumLeftShiftWordsAndBits, List.length_append, List.length_replicate, leftShiftBits_length]
    omega

theorem two_pow_words (exponent : Nat) :
    2 ^ exponent = capacity width (exponent / width) * 2 ^ (exponent % width) := by
  rw [capacity_eq_two_pow, ← pow_add, Nat.div_add_mod]

theorem bigNumLeftShift_value (wide : 0 < width) {numWordsResult exponent : Nat}
    {a : List (BitVec width)}
    (room : exponent % width = 0 → a.length + exponent / width ≤ numWordsResult) :
    value (bigNumLeftShift numWordsResult a exponent) = 2 ^ exponent * value a := by
  rw [@two_pow_words width]
  by_cases aligned : exponent % width = 0
  · have fits := room aligned
    have kept : a.take (numWordsResult - exponent / width) = a := List.take_of_length_le (by omega)
    simp [bigNumLeftShift, aligned, bigNumLeftShiftWords, value_append, kept]
  · have inside : exponent % width ≤ width := (Nat.mod_lt _ wide).le
    simp only [bigNumLeftShift, aligned, ne_eq, not_false_eq_true, ↓reduceIte,
      bigNumLeftShiftWordsAndBits, value_append, value_replicate_zero, List.length_replicate,
      leftShiftBits_value inside, BitVec.toNat_ofNat, Nat.zero_mod, Nat.zero_div, zero_add]
    rw [mul_assoc]

end LeftShift

section RightShift

theorem bigNumRightShiftBitsSmall_length (exponent : Nat) (a : List (BitVec width)) :
    (bigNumRightShiftBitsSmall exponent a).length = a.length := by
  induction a with
  | nil => rfl
  | cons word a ih =>
    cases a with
    | nil => rfl
    | cons above a => simpa [bigNumRightShiftBitsSmall] using ih

variable {exponent : Nat}

theorem rightWord_value (word above : BitVec width) (inside : exponent ≤ width) :
    (word >>> exponent ||| above <<< (width - exponent)).toNat =
      word.toNat / 2 ^ exponent + 2 ^ (width - exponent) * (above.toNat % 2 ^ exponent) := by
  have swapped := leftWord_value above word (Nat.sub_le width exponent)
  have split : (2 : Nat) ^ width = 2 ^ (width - exponent) * 2 ^ exponent := by
    rw [← pow_add, Nat.sub_add_cancel inside]
  rw [Nat.sub_sub_self inside] at swapped
  rw [BitVec.or_comm, swapped, split, mul_comm above.toNat, Nat.mul_mod_mul_left, add_comm]

theorem bigNumRightShiftBitsSmall_value (inside : exponent ≤ width) (a : List (BitVec width)) :
    value (bigNumRightShiftBitsSmall exponent a) = value a / 2 ^ exponent := by
  induction a with
  | nil => simp [bigNumRightShiftBitsSmall]
  | cons word a ih =>
    have split : (2 : Nat) ^ width = 2 ^ exponent * 2 ^ (width - exponent) := by
      rw [← pow_add, Nat.add_sub_cancel' inside]
    have divided : value (word :: a) / 2 ^ exponent =
        word.toNat / 2 ^ exponent + 2 ^ (width - exponent) * value a := by
      rw [value_cons, split, mul_assoc, Nat.add_mul_div_left _ _ (by positivity)]
    rw [divided]
    cases a with
    | nil => simp [bigNumRightShiftBitsSmall, Nat.shiftRight_eq_div_pow]
    | cons above a =>
      -- The low bits of the word above are what moves into this word.
      have low : value (above :: a) % 2 ^ exponent = above.toNat % 2 ^ exponent := by
        rw [value_cons, split, mul_assoc, Nat.add_mul_mod_self_left]
      have whole := Nat.mod_add_div (value (above :: a)) (2 ^ exponent)
      rw [low] at whole
      rw [bigNumRightShiftBitsSmall, value_cons, ih, rightWord_value word above inside, split]
      calc _ = word.toNat / 2 ^ exponent + 2 ^ (width - exponent) *
            (above.toNat % 2 ^ exponent + 2 ^ exponent * (value (above :: a) / 2 ^ exponent)) := by
            ring
        _ = _ := by rw [whole]

variable {a : List (BitVec width)}

theorem bigNumRightShift_length
    (inside : exponent / width ≤ a.length) : (bigNumRightShift a exponent).length = a.length := by
  by_cases aligned : exponent % width = 0
  · simp [bigNumRightShift, aligned, bigNumRightShiftWords, inside]
  · simp [bigNumRightShift, aligned, bigNumRightShiftWordsAndBits,
      bigNumRightShiftBitsSmall_length, inside]

theorem value_drop {count : Nat} {words : List (BitVec width)} (inside : count ≤ words.length) :
    value (words.drop count) = value words / capacity width count := by
  have low := value_lt (words.take count)
  rw [List.length_take, min_eq_left inside] at low
  rw [value_take_drop count words inside, Nat.add_mul_div_left _ _ (capacity_pos count),
    Nat.div_eq_of_lt low, zero_add]

theorem bigNumRightShift_value (wide : 0 < width) (inside : exponent / width ≤ a.length) :
    value (bigNumRightShift a exponent) = value a / 2 ^ exponent := by
  rw [@two_pow_words width, ← Nat.div_div_eq_div_mul, ← value_drop inside]
  by_cases aligned : exponent % width = 0
  · simp [bigNumRightShift, aligned, bigNumRightShiftWords, value_append]
  · have small : exponent % width ≤ width := (Nat.mod_lt _ wide).le
    simp [bigNumRightShift, aligned, bigNumRightShiftWordsAndBits, value_append,
      bigNumRightShiftBitsSmall_value small]

end RightShift

section Size

theorem mask_clear_iff (word : BitVec width) {bit : Nat} (inside : bit < width)
    (bound : word.toNat < 2 ^ (bit + 1)) :
    word &&& (BitVec.ofNat width 1 <<< bit) = 0 ↔ word.toNat < 2 ^ bit := by
  have mask : (BitVec.ofNat width 1 <<< bit).toNat = 2 ^ bit := by
    have one : 1 % 2 ^ width = 1 := Nat.mod_eq_of_lt (Nat.one_lt_two_pow (by omega))
    rw [BitVec.toNat_shiftLeft, BitVec.toNat_ofNat, one, Nat.shiftLeft_eq, one_mul,
      Nat.mod_eq_of_lt (Nat.pow_lt_pow_right (by decide) inside)]
  rw [← BitVec.toNat_inj, BitVec.toNat_and, mask, Nat.and_two_pow]
  by_cases below : word.toNat < 2 ^ bit
  · simp [below, Nat.testBit_lt_two_pow below]
  · have set : word.toNat.testBit bit = true := by
      rw [Nat.testBit_eq_decide_div_mod_eq]
      have quotient : word.toNat / 2 ^ bit = 1 := by
        apply Nat.div_eq_of_lt_le
        · omega
        · rw [pow_succ] at bound
          omega
      simp [quotient]
    simp [below, set]

theorem bigNumSignificantBitsFrom_eq (word : BitVec width) (numBits : Nat)
    (bound : word.toNat < 2 ^ numBits) (inside : numBits ≤ width) :
    bigNumSignificantBitsFrom word numBits = Nat.size word.toNat := by
  induction numBits with
  | zero =>
    have zero : word.toNat = 0 := by simpa using bound
    simp [bigNumSignificantBitsFrom, zero]
  | succ numBits ih =>
    have bit := mask_clear_iff word inside bound
    rw [bigNumSignificantBitsFrom]
    by_cases below : word.toNat < 2 ^ numBits
    · rw [if_pos (bit.mpr below), ih below (by omega)]
    · rw [if_neg (fun clear => below (bit.mp clear))]
      have upper := Nat.size_le.mpr bound
      have lower := Nat.lt_size.mpr (Nat.le_of_not_lt below)
      omega

theorem bigNumSignificantBitsWord_eq (word : BitVec width) :
    bigNumSignificantBitsWord word = Nat.size word.toNat :=
  bigNumSignificantBitsFrom_eq word width word.isLt le_rfl

theorem size_add_mul {low high bits : Nat} (bound : low < 2 ^ bits) (some : high ≠ 0) :
    Nat.size (low + 2 ^ bits * high) = bits + Nat.size high := by
  have highUpper : high + 1 ≤ 2 ^ Nat.size high := Nat.lt_size_self high
  obtain ⟨top, topEq⟩ : ∃ top, Nat.size high = top + 1 :=
    Nat.exists_eq_succ_of_ne_zero (Nat.size_eq_zero.not.mpr some)
  have highLower : 2 ^ top ≤ high := Nat.lt_size.mp (by omega)
  apply le_antisymm
  · rw [Nat.size_le, pow_add]
    calc low + 2 ^ bits * high < 2 ^ bits * (high + 1) := by rw [Nat.mul_succ]; omega
      _ ≤ 2 ^ bits * 2 ^ Nat.size high := Nat.mul_le_mul_left _ highUpper
  · rw [topEq, ← add_assoc, Nat.succ_le_iff, Nat.lt_size, pow_add]
    calc 2 ^ bits * 2 ^ top ≤ 2 ^ bits * high := Nat.mul_le_mul_left _ highLower
      _ ≤ low + 2 ^ bits * high := Nat.le_add_left _ _

theorem bigNumMostSignificantWord_spec (a : List (BitVec width)) {numWords : Nat}
    (positive : 0 < numWords) (inside : numWords ≤ a.length) :
    bigNumMostSignificantWord a numWords < numWords ∧
      value (a.take numWords) = value (a.take (bigNumMostSignificantWord a numWords + 1)) ∧
      (a.getD (bigNumMostSignificantWord a numWords) 0 = 0 →
        bigNumMostSignificantWord a numWords = 0) := by
  induction numWords with
  | zero => omega
  | succ index ih =>
    rw [bigNumMostSignificantWord]
    by_cases some : a.getD index 0 ≠ 0
    · rw [if_pos some]
      exact ⟨Nat.lt_succ_self _, rfl, fun zero => absurd zero some⟩
    · rw [if_neg some]
      have zero : a.getD index 0 = 0 := not_not.mp some
      cases index with
      | zero => exact ⟨by simp [bigNumMostSignificantWord], rfl, fun _ => rfl⟩
      | succ index =>
        obtain ⟨below, same, allZero⟩ := ih (Nat.succ_pos _) (by omega)
        refine ⟨by omega, ?_, allZero⟩
        rw [value_take_succ a (by omega), zero, BitVec.ofNat_eq_ofNat, BitVec.toNat_ofNat,
          Nat.zero_mod, mul_zero, add_zero, same]

theorem bigNumSignificantBits_eq (a : List (BitVec width)) {numWords : Nat}
    (positive : 0 < numWords) (inside : numWords ≤ a.length) :
    bigNumSignificantBits a numWords = Nat.size (value (a.take numWords)) := by
  obtain ⟨below, same, allZero⟩ := bigNumMostSignificantWord_spec a positive inside
  rw [bigNumSignificantBits, bigNumSignificantBitsWord_eq, same]
  generalize bigNumMostSignificantWord a numWords = index at below allZero
  have low := value_lt (a.take index)
  rw [List.length_take, min_eq_left (by omega), capacity_eq_two_pow] at low
  rw [value_take_succ a (by omega), capacity_eq_two_pow]
  by_cases zero : a.getD index 0 = 0
  · rw [zero, allZero zero]
    simp
  · have some : (a.getD index 0).toNat ≠ 0 :=
      fun none => zero (BitVec.eq_of_toNat_eq (by simpa using none))
    rw [size_add_mul low some, mul_comm]

end Size

end OpenCore.BigNumShifts
