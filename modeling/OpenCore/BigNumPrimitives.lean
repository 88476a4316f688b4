import OpenCore.WordArray
import Mathlib.Data.Nat.Size

/-!
Arbitrary precision arithmetic, after `BigNumPrimitives.c`. A number is an array
of words, and a word is as wide as the platform's natural integer. The routines
write into buffers of the caller; here they answer with what the buffer holds
afterwards. `ASSERT` checks and goes on, as it does in a release build.
-/

namespace OpenCore.BigNumPrimitives

open WordArray

inductive WordSize where
  | uint32
  | uint64
  deriving DecidableEq

def WordSize.bytes : WordSize → Nat
  | .uint32 => 4
  | .uint64 => 8

def WordSize.numBits (size : WordSize) : Nat := size.bytes * 8

variable {width : Nat}

/-- `BigNumWordMul`: the high and the low word of the product. Both word sizes
multiply in an integer of twice the width. -/
def bigNumWordMul (a b : BitVec width) : BitVec width × BitVec width :=
  let product := a.setWidth (width + width) * b.setWidth (width + width)
  ((product >>> width).setWidth width, product.setWidth width)

def bigNumSubFrom : BitVec width → List (BitVec width) → List (BitVec width) → List (BitVec width)
  | borrow, tmp1 :: a, word :: b =>
    let tmp2 := word + borrow
    let tmpResult := tmp1 - tmp2
    tmpResult :: bigNumSubFrom (if tmp2 < borrow ∨ tmp1 < tmpResult then 1 else 0) a b
  | _, _, _ => []

def bigNumSub (a b : List (BitVec width)) : List (BitVec width) := bigNumSubFrom 0 a b

/-- `BigNumSignificantBitsWord`: the mask goes down from the bit below `numBits`. -/
def bigNumSignificantBitsFrom (word : BitVec width) : Nat → Nat
  | 0 => 0
  | numBits + 1 =>
    if word &&& (BitVec.ofNat width 1 <<< numBits) = 0 then bigNumSignificantBitsFrom word numBits
    else numBits + 1

def bigNumSignificantBitsWord (word : BitVec width) : Nat :=
  bigNumSignificantBitsFrom word width

def bigNumMostSignificantWord (a : List (BitVec width)) : Nat → Nat
  | 0 => 0
  | index + 1 => if a.getD index 0 ≠ 0 then index else bigNumMostSignificantWord a index

def bigNumSignificantBits (a : List (BitVec width)) (numWords : Nat) : Nat :=
  let index := bigNumMostSignificantWord a numWords
  index * width + bigNumSignificantBitsWord (a.getD index 0)

def bigNumOrWord (a : List (BitVec width)) (numWords : Nat) (word : BitVec width)
    (exponent : Nat) : List (BitVec width) :=
  let wordIndex := exponent / width
  if wordIndex < numWords then
    a.set wordIndex (a.getD wordIndex 0 ||| (word <<< (exponent % width)))
  else a

def bigNumCmp (a b : List (BitVec width)) : Nat → Ordering
  | 0 => .eq
  | index + 1 =>
    if a.getD index 0 > b.getD index 0 then .gt
    else if a.getD index 0 < b.getD index 0 then .lt
    else bigNumCmp a b index

def bigNumLeftShiftWords (numWordsResult : Nat) (a : List (BitVec width)) (exponent : Nat) :
    List (BitVec width) :=
  List.replicate exponent (BitVec.ofNat width 0) ++ a.take (numWordsResult - exponent) ++
    List.replicate (numWordsResult - exponent - a.length) (BitVec.ofNat width 0)

/-- The words of `BigNumLeftShiftWordsAndBits` from the one above `below` on. -/
def leftShiftBits (numBits : Nat) : BitVec width → List (BitVec width) → List (BitVec width)
  | below, [] => [below >>> (width - numBits)]
  | below, word :: a =>
    (word <<< numBits ||| below >>> (width - numBits)) :: leftShiftBits numBits word a

def bigNumLeftShiftWordsAndBits (a : List (BitVec width)) (numWords numBits : Nat) :
    List (BitVec width) :=
  List.replicate numWords (BitVec.ofNat width 0) ++ leftShiftBits numBits (BitVec.ofNat width 0) a

def bigNumLeftShift (numWordsResult : Nat) (a : List (BitVec width)) (exponent : Nat) :
    List (BitVec width) :=
  let numWords := exponent / width
  let numBits := exponent % width
  if numBits ≠ 0 then bigNumLeftShiftWordsAndBits a numWords numBits
  else bigNumLeftShiftWords numWordsResult a numWords

def bigNumRightShiftBitsSmall (exponent : Nat) : List (BitVec width) → List (BitVec width)
  | [] => []
  | [word] => [word >>> exponent]
  | word :: above :: a =>
    (word >>> exponent ||| above <<< (width - exponent)) ::
      bigNumRightShiftBitsSmall exponent (above :: a)

/-- `BigNumRightShiftWords`, with one buffer for the number and the result. -/
def bigNumRightShiftWords (a : List (BitVec width)) (exponent : Nat) : List (BitVec width) :=
  a.drop exponent ++ List.replicate exponent (BitVec.ofNat width 0)

/-- `BigNumRightShiftWordsAndBits`, with one buffer for the number and the result. -/
def bigNumRightShiftWordsAndBits (a : List (BitVec width)) (numWords numBits : Nat) :
    List (BitVec width) :=
  bigNumRightShiftBitsSmall numBits (a.drop numWords) ++ List.replicate numWords (BitVec.ofNat width 0)

def bigNumRightShift (a : List (BitVec width)) (exponent : Nat) : List (BitVec width) :=
  let numWords := exponent / width
  let numBits := exponent % width
  if numBits ≠ 0 then bigNumRightShiftWordsAndBits a numWords numBits
  else bigNumRightShiftWords a numWords

section WordMul

theorem bigNumWordMul_value (a b : BitVec width) :
    (bigNumWordMul a b).2.toNat + 2 ^ width * (bigNumWordMul a b).1.toNat = a.toNat * b.toNat := by
  have fits : a.toNat * b.toNat < 2 ^ (width + width) := by
    rw [Nat.pow_add]
    exact Nat.mul_lt_mul'' a.isLt b.isLt
  have wide : ∀ word : BitVec width, word.toNat % 2 ^ (width + width) = word.toNat := by
    intro word
    apply Nat.mod_eq_of_lt
    exact lt_of_lt_of_le word.isLt (Nat.pow_le_pow_right (by decide) (Nat.le_add_left _ _))
  have high : a.toNat * b.toNat / 2 ^ width < 2 ^ width := by
    rw [Nat.pow_add] at fits
    exact Nat.div_lt_of_lt_mul fits
  simp only [bigNumWordMul, BitVec.toNat_setWidth, BitVec.toNat_ushiftRight, BitVec.toNat_mul,
    wide, Nat.mod_eq_of_lt fits, Nat.shiftRight_eq_div_pow, Nat.mod_eq_of_lt high]
  exact Nat.mod_add_div _ _

end WordMul

section Subtraction

variable {a b : List (BitVec width)}

theorem bigNumSubFrom_length (borrow : BitVec width)
    (lengths : a.length = b.length) : (bigNumSubFrom borrow a b).length = a.length := by
  induction a generalizing b borrow with
  | nil => simp [bigNumSubFrom]
  | cons tmp1 a ih =>
    cases b with
    | nil => cases lengths
    | cons word b =>
      simp only [bigNumSubFrom, List.length_cons]
      rw [ih _ (Nat.succ.inj lengths)]

theorem subWord_value (tmp1 word borrow : BitVec width) (small : borrow.toNat ≤ 1)
    (wide : 0 < width) :
    let tmp2 := word + borrow
    let next : BitVec width := if tmp2 < borrow ∨ tmp1 < tmp1 - tmp2 then 1 else 0
    next.toNat ≤ 1 ∧
      (tmp1 - tmp2).toNat + word.toNat + borrow.toNat = tmp1.toNat + 2 ^ width * next.toNat := by
  have base : 2 ≤ 2 ^ width := Nat.le_self_pow wide.ne' 2
  have one : (1 : BitVec width).toNat = 1 := by
    simp [Nat.mod_eq_of_lt (show 1 < 2 ^ width by omega)]
  have left := tmp1.isLt
  have right := word.isLt
  intro tmp2 next
  have sum : tmp2.toNat = (word.toNat + borrow.toNat) % 2 ^ width := BitVec.toNat_add ..
  have difference : (tmp1 - tmp2).toNat = (2 ^ width - tmp2.toNat + tmp1.toNat) % 2 ^ width :=
    BitVec.toNat_sub ..
  by_cases wraps : word.toNat + borrow.toNat = 2 ^ width
  · -- The subtrahend is all ones and takes a borrow: nothing is subtracted.
    have zero : tmp2.toNat = 0 := by rw [sum, wraps, Nat.mod_self]
    have kept : (tmp1 - tmp2).toNat = tmp1.toNat := by
      rw [difference, zero, Nat.sub_zero, Nat.add_mod_left, Nat.mod_eq_of_lt left]
    have below : tmp2 < borrow := by
      rw [BitVec.lt_def, zero]
      omega
    have carried : next.toNat = 1 := by rw [show next = 1 from if_pos (.inl below), one]
    rw [carried, kept]
    omega
  · have exact : tmp2.toNat = word.toNat + borrow.toNat := by
      rw [sum, Nat.mod_eq_of_lt (by omega)]
    have notBelow : ¬ tmp2 < borrow := by
      rw [BitVec.lt_def, exact]
      omega
    by_cases under : tmp1.toNat < tmp2.toNat
    · have wrapped : (tmp1 - tmp2).toNat = 2 ^ width - tmp2.toNat + tmp1.toNat := by
        rw [difference, Nat.mod_eq_of_lt (by omega)]
      have above : tmp1 < tmp1 - tmp2 := by
        rw [BitVec.lt_def, wrapped]
        omega
      have carried : next.toNat = 1 := by rw [show next = 1 from if_pos (.inr above), one]
      rw [carried, wrapped]
      omega
    · have plain : (tmp1 - tmp2).toNat = tmp1.toNat - tmp2.toNat := by
        rw [difference]
        have shifted : 2 ^ width - tmp2.toNat + tmp1.toNat =
            2 ^ width + (tmp1.toNat - tmp2.toNat) := by omega
        rw [shifted, Nat.add_mod_left, Nat.mod_eq_of_lt (by omega)]
      have notAbove : ¬ tmp1 < tmp1 - tmp2 := by
        rw [BitVec.lt_def, plain]
        omega
      have carried : next.toNat = 0 := by simp [next, notBelow, notAbove]
      rw [carried, plain]
      omega

theorem bigNumSubFrom_value (wide : 0 < width) (borrow : BitVec width) (small : borrow.toNat ≤ 1)
    (lengths : a.length = b.length) :
    ∃ out ≤ 1, value (bigNumSubFrom borrow a b) + value b + borrow.toNat =
      value a + capacity width a.length * out := by
  induction a generalizing b borrow with
  | nil =>
    cases b with
    | nil => exact ⟨borrow.toNat, small, by simp [bigNumSubFrom, capacity]⟩
    | cons word b => cases lengths
  | cons tmp1 a ih =>
    cases b with
    | nil => cases lengths
    | cons word b =>
      obtain ⟨nextSmall, wordEq⟩ := subWord_value tmp1 word borrow small wide
      obtain ⟨out, outSmall, restEq⟩ := ih _ nextSmall (Nat.succ.inj lengths)
      refine ⟨out, outSmall, ?_⟩
      simp only [bigNumSubFrom, value_cons, List.length_cons, capacity_succ]
      calc _ = ((tmp1 - (word + borrow)).toNat + word.toNat + borrow.toNat) +
            2 ^ width * (value (bigNumSubFrom _ a b) + value b) := by ring
        _ = tmp1.toNat + 2 ^ width * (value (bigNumSubFrom _ a b) + value b +
            (if word + borrow < borrow ∨ tmp1 < tmp1 - (word + borrow) then
              (1 : BitVec width) else 0).toNat) := by rw [wordEq]; ring
        _ = _ := by rw [restEq]; ring

theorem bigNumSub_length (lengths : a.length = b.length) :
    (bigNumSub a b).length = a.length := bigNumSubFrom_length 0 lengths

theorem bigNumSub_value (wide : 0 < width)
    (lengths : a.length = b.length) (ordered : value b ≤ value a) :
    value (bigNumSub a b) = value a - value b := by
  obtain ⟨out, outSmall, total⟩ := bigNumSubFrom_value wide 0 (by simp) lengths
  have bound := value_lt (bigNumSub a b)
  rw [bigNumSub_length lengths] at bound
  have zero : (0 : BitVec width).toNat = 0 := BitVec.toNat_zero
  rw [zero, Nat.add_zero] at total
  simp only [bigNumSub] at bound ⊢
  have stays : out = 0 := by
    by_contra borrowed
    have one : out = 1 := by omega
    rw [one] at total
    omega
  rw [stays] at total
  omega

theorem bigNumSub_value_wrapped (wide : 0 < width)
    (lengths : a.length = b.length) (ordered : value a < value b) :
    value (bigNumSub a b) + value b = value a + capacity width a.length := by
  obtain ⟨out, outSmall, total⟩ := bigNumSubFrom_value wide 0 (by simp) lengths
  have zero : (0 : BitVec width).toNat = 0 := BitVec.toNat_zero
  rw [zero, Nat.add_zero] at total
  simp only [bigNumSub] at total ⊢
  have borrowed : out = 1 := by
    by_contra stays
    have zero : out = 0 := by omega
    rw [zero] at total
    omega
  rw [borrowed] at total
  omega

end Subtraction

section Comparison

theorem compare_scaled (scale low low' high high' : Nat) (lowBound : low < scale)
    (ordered : high < high') :
    low + scale * high < low' + scale * high' := by
  calc low + scale * high < scale + scale * high := Nat.add_lt_add_right lowBound _
    _ = scale * (high + 1) := by ring
    _ ≤ scale * high' := Nat.mul_le_mul_left _ ordered
    _ ≤ low' + scale * high' := Nat.le_add_left _ _

/-- `BigNumCmp` orders the numbers of the compared words. -/
theorem bigNumCmp_eq {a b : List (BitVec width)} {count : Nat} (left : count ≤ a.length)
    (right : count ≤ b.length) :
    bigNumCmp a b count = compare (value (a.take count)) (value (b.take count)) := by
  induction count with
  | zero => simp [bigNumCmp]
  | succ index ih =>
    have lowA := value_lt (a.take index)
    have lowB := value_lt (b.take index)
    rw [List.length_take, min_eq_left (by omega)] at lowA lowB
    rw [value_take_succ a left, value_take_succ b right, bigNumCmp]
    by_cases above : a.getD index 0 > b.getD index 0
    · rw [if_pos above, compare_gt_iff_gt.mpr
        (compare_scaled _ _ _ _ _ lowB (BitVec.lt_def.mp above))]
    · by_cases below : a.getD index 0 < b.getD index 0
      · rw [if_neg above, if_pos below, compare_lt_iff_lt.mpr
          (compare_scaled _ _ _ _ _ lowA (BitVec.lt_def.mp below))]
      · have same : (a.getD index 0).toNat = (b.getD index 0).toNat := by
          rw [gt_iff_lt, BitVec.lt_def] at above
          rw [BitVec.lt_def] at below
          omega
        rw [if_neg above, if_neg below, ih (by omega) (by omega), same]
        simp [compare, compareOfLessAndEq]

end Comparison

end OpenCore.BigNumPrimitives
