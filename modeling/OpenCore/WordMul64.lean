import OpenCore.BigNumPrimitives
import Mathlib.Data.Nat.Bitwise

/-!
The multiplication of 64-bit words out of four products of half words, for compilers
without an integer of 128 bits, agrees with the one in such an integer.
-/

namespace OpenCore.WordMul64

open BigNumPrimitives

def subWordShift : Nat := 32

def subWordMask : BitVec 64 := (1#64 <<< subWordShift) - 1#64

/-- `BigNumWordMul64` of `Cpu32`: the high and the low word of the product. -/
def bigNumWordMul64 (a b : BitVec 64) : BitVec 64 × BitVec 64 :=
  let aLo := a &&& subWordMask
  let aHi := a >>> subWordShift
  let bLo := b &&& subWordMask
  let bHi := b >>> subWordShift
  let p0 := aLo * bLo
  let p1 := aLo * bHi
  let p2 := aHi * bLo
  let p3 := aHi * bHi
  let cy := (((p0 >>> subWordShift) + (p1 &&& subWordMask) + (p2 &&& subWordMask)) >>> subWordShift) &&&
    subWordMask
  (p3 + (p1 >>> subWordShift) + (p2 >>> subWordShift) + cy,
    p0 + (p1 <<< subWordShift) + (p2 <<< subWordShift))

theorem low_toNat (word : BitVec 64) : (word &&& subWordMask).toNat = word.toNat % 2 ^ 32 := by
  have mask : subWordMask.toNat = 2 ^ 32 - 1 := by decide
  rw [BitVec.toNat_and, mask, Nat.and_two_pow_sub_one_eq_mod]

theorem high_toNat (word : BitVec 64) : (word >>> subWordShift).toNat = word.toNat / 2 ^ 32 := by
  rw [BitVec.toNat_ushiftRight, Nat.shiftRight_eq_div_pow, subWordShift]

theorem raised_toNat (word : BitVec 64) :
    (word <<< subWordShift).toNat = word.toNat * 2 ^ 32 % 2 ^ 64 := by
  rw [BitVec.toNat_shiftLeft, Nat.shiftLeft_eq, subWordShift]

theorem mul_toNat {left right : BitVec 64} (small : left.toNat < 2 ^ 32) (small' : right.toNat < 2 ^ 32) :
    (left * right).toNat = left.toNat * right.toNat := by
  have bound : left.toNat * right.toNat < 2 ^ 32 * 2 ^ 32 := Nat.mul_lt_mul'' small small'
  rw [BitVec.toNat_mul, Nat.mod_eq_of_lt (by omega)]

theorem product_of_halves (a b : Nat) : a * b =
    a % 2 ^ 32 * (b % 2 ^ 32) + (a % 2 ^ 32 * (b / 2 ^ 32) + a / 2 ^ 32 * (b % 2 ^ 32)) * 2 ^ 32 +
      a / 2 ^ 32 * (b / 2 ^ 32) * 2 ^ 64 := by
  conv_lhs => rw [← Nat.mod_add_div a (2 ^ 32), ← Nat.mod_add_div b (2 ^ 32)]
  ring

section Sums

variable {p0 p1 p2 p3 : Nat}

theorem low_sum : ((p0 + p1 * 2 ^ 32 % 2 ^ 64) % 2 ^ 64 + p2 * 2 ^ 32 % 2 ^ 64) % 2 ^ 64 =
    p0 % 2 ^ 32 + (p0 / 2 ^ 32 + p1 % 2 ^ 32 + p2 % 2 ^ 32) % 2 ^ 32 * 2 ^ 32 := by
  rw [show (2 : Nat) ^ 64 = 2 ^ 32 * 2 ^ 32 by decide, Nat.mul_mod_mul_right, Nat.mul_mod_mul_right]
  generalize p1 % 2 ^ 32 = r1
  generalize p2 % 2 ^ 32 = r2
  omega

theorem carry_sum (word : p0 < 2 ^ 64) :
    ((p0 / 2 ^ 32 + p1 % 2 ^ 32) % 2 ^ 64 + p2 % 2 ^ 32) % 2 ^ 64 / 2 ^ 32 % 2 ^ 32 =
      (p0 / 2 ^ 32 + p1 % 2 ^ 32 + p2 % 2 ^ 32) / 2 ^ 32 := by
  have low1 : p1 % 2 ^ 32 < 2 ^ 32 := Nat.mod_lt _ (by decide)
  have low2 : p2 % 2 ^ 32 < 2 ^ 32 := Nat.mod_lt _ (by decide)
  generalize p1 % 2 ^ 32 = r1 at *
  generalize p2 % 2 ^ 32 = r2 at *
  omega

theorem high_sum {high1 high2 carry : Nat} (fits : p3 + high1 + high2 + carry < 2 ^ 64) :
    (((p3 + high1) % 2 ^ 64 + high2) % 2 ^ 64 + carry) % 2 ^ 64 = p3 + high1 + high2 + carry := by
  omega

theorem product_sum : p0 + (p1 + p2) * 2 ^ 32 + p3 * 2 ^ 64 =
    (p3 + p1 / 2 ^ 32 + p2 / 2 ^ 32 + (p0 / 2 ^ 32 + p1 % 2 ^ 32 + p2 % 2 ^ 32) / 2 ^ 32) * 2 ^ 64 +
      (p0 % 2 ^ 32 + (p0 / 2 ^ 32 + p1 % 2 ^ 32 + p2 % 2 ^ 32) % 2 ^ 32 * 2 ^ 32) := by
  have split0 := Nat.mod_add_div p0 (2 ^ 32)
  have split1 := Nat.mod_add_div p1 (2 ^ 32)
  have split2 := Nat.mod_add_div p2 (2 ^ 32)
  have carry := Nat.mod_add_div (p0 / 2 ^ 32 + p1 % 2 ^ 32 + p2 % 2 ^ 32) (2 ^ 32)
  generalize p0 / 2 ^ 32 = q0 at *
  generalize p1 / 2 ^ 32 = q1 at *
  generalize p2 / 2 ^ 32 = q2 at *
  generalize p0 % 2 ^ 32 = r0 at *
  generalize p1 % 2 ^ 32 = r1 at *
  generalize p2 % 2 ^ 32 = r2 at *
  omega

end Sums

theorem bigNumWordMul64_value (a b : BitVec 64) :
    (bigNumWordMul64 a b).1.toNat * 2 ^ 64 + (bigNumWordMul64 a b).2.toNat = a.toNat * b.toNat := by
  have aLow : (a &&& subWordMask).toNat < 2 ^ 32 := low_toNat a ▸ Nat.mod_lt _ (by decide)
  have bLow : (b &&& subWordMask).toNat < 2 ^ 32 := low_toNat b ▸ Nat.mod_lt _ (by decide)
  have aHigh : (a >>> subWordShift).toNat < 2 ^ 32 :=
    high_toNat a ▸ Nat.div_lt_of_lt_mul (by simpa using a.isLt)
  have bHigh : (b >>> subWordShift).toNat < 2 ^ 32 :=
    high_toNat b ▸ Nat.div_lt_of_lt_mul (by simpa using b.isLt)
  have whole := product_of_halves a.toNat b.toNat
  have fits : a.toNat * b.toNat < 2 ^ 64 * 2 ^ 64 := Nat.mul_lt_mul'' a.isLt b.isLt
  rw [← low_toNat, ← low_toNat, ← high_toNat, ← high_toNat, ← mul_toNat aLow bLow, ← mul_toNat aLow bHigh,
    ← mul_toNat aHigh bLow, ← mul_toNat aHigh bHigh, product_sum] at whole
  rw [whole] at fits ⊢
  simp only [bigNumWordMul64, BitVec.toNat_add, low_toNat, high_toNat, raised_toNat, low_sum]
  rw [carry_sum ((a &&& subWordMask) * (b &&& subWordMask)).isLt,
    high_sum (Nat.lt_of_mul_lt_mul_right (lt_of_le_of_lt (Nat.le_add_right _ _) fits))]

/-- The portable product is the one of 128 bits. -/
theorem bigNumWordMul64_exact (a b : BitVec 64) :
    (bigNumWordMul64 a b).1.toNat * 2 ^ 64 + (bigNumWordMul64 a b).2.toNat = a.toNat * b.toNat ∧
      bigNumWordMul64 a b = bigNumWordMul a b := by
  have value := bigNumWordMul64_value a b
  have wide := bigNumWordMul_value a b
  refine ⟨value, Prod.ext (BitVec.eq_of_toNat_eq ?_) (BitVec.eq_of_toNat_eq ?_)⟩
  · omega
  · omega

end OpenCore.WordMul64
