import OpenCore.BigNumMontgomery
import Mathlib.Data.Nat.Prime.Basic

/-!
Exponentiation by Montgomery multiplication. Between two products a number is
kept as any representative below the capacity of its words, so that a residue has
several; the last product is bounded by two moduli, and one comparison with the
modulus is enough at the end.
-/

namespace OpenCore.MontgomeryPower

open WordArray BigNumPrimitives BigNumMontgomery List

variable {width numWords : Nat}

structure MontParams (width numWords : Nat) where
  n : List (BitVec width)
  n0Inv : BitVec width
  rSqrMod : List (BitVec width)
  n_length : n.length = numWords
  rSqrMod_length : rSqrMod.length = numWords
  odd : value n % 2 = 1
  inverse : n0Inv * n.headD 0 = -1
  rSqr : value rSqrMod = capacity width numWords ^ 2 % value n

namespace MontParams
variable (params : MontParams width numWords)

theorem nonempty : params.n ≠ [] := by
  intro empty
  have odd := params.odd
  rw [empty] at odd
  cases odd

include params in
theorem wide : 0 < width := by
  by_contra narrow
  obtain rfl : width = 0 := by omega
  have bound := value_lt params.n
  have odd := params.odd
  rw [capacity_eq_two_pow, zero_mul] at bound
  omega

theorem coprime : Nat.Coprime (value params.n) (capacity width numWords) := by
  rw [capacity_eq_two_pow]
  apply Nat.Coprime.pow_right
  exact Nat.coprime_two_right.mpr (Nat.odd_iff.mpr params.odd)

theorem positive : 0 < value params.n := by
  have odd := params.odd
  omega

end MontParams

section Product
variable (params : MontParams width numWords)
variable {words : List (BitVec width)} {number : Nat}

theorem rows_product {b : List (BitVec width)} (multiplier : b.length = numWords)
    (a result : List (BitVec width)) (resultLength : result.length = numWords) :
    let rows := a.foldl
      (fun result aWord => bigNumMontMulRow result aWord b params.n params.n0Inv) result
    rows.length = numWords ∧ capacity width a.length * value rows ≡ value result + value a * value b
        [MOD value params.n] ∧
      (value result < value b + value params.n → value rows < value b + value params.n) := by
  induction a generalizing result with
  | nil =>
    refine ⟨resultLength, ?_, id⟩
    simp [capacity]
    rfl
  | cons aWord a ih =>
    obtain ⟨exact, row⟩ := bigNumMontMulRow_exact params.wide aWord params.nonempty
      (resultLength.trans params.n_length.symm) (multiplier.trans params.n_length.symm)
      params.inverse
    obtain ⟨length, product, bound⟩ := ih _ (row.length.trans params.n_length)
    refine ⟨length, ?_, fun start => bound (row.below start)⟩
    have scaled := product.mul_left (2 ^ width)
    have added := row.modEq.add_right (2 ^ width * (value a * value b))
    rw [length_cons, capacity_succ, mul_assoc, value_cons]
    calc _ ≡ 2 ^ width * (value (bigNumMontMulRow result aWord b params.n params.n0Inv) +
          value a * value b) [MOD value params.n] := scaled
      _ = 2 ^ width * value (bigNumMontMulRow result aWord b params.n params.n0Inv) +
          2 ^ width * (value a * value b) := mul_add ..
      _ ≡ value result + aWord.toNat * value b + 2 ^ width * (value a * value b)
          [MOD value params.n] := added
      _ = value result + (aWord.toNat + 2 ^ width * value a) * value b := by ring

theorem bigNumMontMul_product {a b : List (BitVec width)} (multiplicand : a.length = numWords)
    (multiplier : b.length = numWords) :
    (bigNumMontMul a b params.n params.n0Inv).length = numWords ∧
      capacity width numWords * value (bigNumMontMul a b params.n params.n0Inv) ≡
        value a * value b [MOD value params.n] ∧
      value (bigNumMontMul a b params.n params.n0Inv) < value b + value params.n := by
  obtain ⟨length, product, bound⟩ := rows_product params multiplier a
    (replicate params.n.length (BitVec.ofNat width 0)) (by simp [params.n_length])
  rw [multiplicand, value_replicate_zero, zero_add] at product
  have start : value (replicate params.n.length (BitVec.ofNat width 0)) <
      value b + value params.n := by
    rw [value_replicate_zero]
    have positive := params.positive
    omega
  exact ⟨length, product, bound start⟩

def Encodes (words : List (BitVec width)) (number : Nat) : Prop :=
  words.length = numWords ∧
    value words ≡ number * capacity width numWords [MOD value params.n]

variable {params}

theorem Encodes.mul {left right : List (BitVec width)} {first second : Nat}
    (one : Encodes params left first) (two : Encodes params right second) :
    Encodes params (bigNumMontMul left right params.n params.n0Inv) (first * second) := by
  obtain ⟨length, product, _⟩ := bigNumMontMul_product params one.1 two.1
  refine ⟨length, Nat.ModEq.cancel_left_of_coprime params.coprime ?_⟩
  calc _ ≡ value left * value right [MOD value params.n] := product
    _ ≡ first * capacity width numWords * (second * capacity width numWords)
        [MOD value params.n] := one.2.mul two.2
    _ = capacity width numWords * (first * second * capacity width numWords) := by ring

/-- Multiplication by the square of `R` enters the Montgomery domain. -/
theorem encodes_enter {a : List (BitVec width)} (length : a.length = numWords) :
    Encodes params (bigNumMontMul a params.rSqrMod params.n params.n0Inv) (value a) := by
  obtain ⟨resultLength, product, _⟩ := bigNumMontMul_product params length params.rSqrMod_length
  refine ⟨resultLength, Nat.ModEq.cancel_left_of_coprime params.coprime ?_⟩
  have square : value params.rSqrMod ≡ capacity width numWords ^ 2 [MOD value params.n] := by
    rw [params.rSqr]
    exact Nat.mod_modEq _ _
  calc _ ≡ value a * value params.rSqrMod [MOD value params.n] := product
    _ ≡ value a * capacity width numWords ^ 2 [MOD value params.n] := square.mul_left _
    _ = capacity width numWords * (value a * capacity width numWords) := by ring

theorem Encodes.squareTwice (encoded : Encodes params words number) :
    Encodes params (squareTwice params.n params.n0Inv words) (number ^ 4) := by
  have square := encoded.mul encoded
  have fourth := square.mul square
  rw [show number ^ 4 = number * number * (number * number) by ring]
  exact fourth

theorem Encodes.squareRepeatedly (passes : Nat) (encoded : Encodes params words number) :
    Encodes params (Nat.iterate (BigNumMontgomery.squareTwice params.n params.n0Inv) passes words)
      (number ^ 4 ^ passes) := by
  induction passes generalizing words number with
  | zero => simpa using encoded
  | succ passes ih =>
    have next := ih encoded.squareTwice
    rw [← Nat.pow_mul, ← Nat.pow_succ'] at next
    exact next

end Product

section Leave
variable (params : MontParams width numWords)

/-- The rows without a multiplicand divide by the word base, up to a multiple of the
modulus below that base. -/
theorem rows0_value {a start : List (BitVec width)} {done : Nat}
    (length : start.length = numWords)
    (reached : ∃ factor < capacity width done,
      capacity width done * value start = value a + factor * value params.n) (rows : Nat) :
    let result := Nat.iterate
      (fun result => bigNumMontMulRow0 result params.n params.n0Inv) rows start
    result.length = numWords ∧ ∃ factor < capacity width (done + rows),
      capacity width (done + rows) * value result = value a + factor * value params.n := by
  induction rows generalizing start done with
  | zero => exact ⟨length, reached⟩
  | succ rows ih =>
    obtain ⟨factor, factorBound, total⟩ := reached
    have sameLength := length.trans params.n_length.symm
    have row := bigNumMontMulRow0_value params.nonempty sameLength params.inverse
    have nextLength := bigNumMontMulRow0_length params.n0Inv params.nonempty sameLength
    have tBound := (start.headD 0 * params.n0Inv).isLt
    generalize (start.headD 0 * params.n0Inv).toNat = tFirst at row tBound
    have next := @ih (bigNumMontMulRow0 start params.n params.n0Inv) (done + 1)
      (nextLength.trans params.n_length)
      ⟨factor + capacity width done * tFirst, ?_, ?_⟩
    · rw [show done + (rows + 1) = done + 1 + rows by omega]
      exact next
    · rw [capacity_succ]
      calc factor + capacity width done * tFirst
          < capacity width done + capacity width done * tFirst := Nat.add_lt_add_right factorBound _
        _ = (tFirst + 1) * capacity width done := by ring
        _ ≤ 2 ^ width * capacity width done := Nat.mul_le_mul_right _ tBound
    · rw [capacity_succ]
      calc 2 ^ width * capacity width done * value (bigNumMontMulRow0 start params.n params.n0Inv)
          = capacity width done *
              (2 ^ width * value (bigNumMontMulRow0 start params.n params.n0Inv)) := by ring
        _ = capacity width done * value start + capacity width done * (tFirst * value params.n) := by
            rw [row, mul_add]
        _ = value a + (factor + capacity width done * tFirst) * value params.n := by
            rw [total]
            ring

theorem quotient_le {scale quotient a factor n : Nat} (total : scale * quotient = a + factor * n)
    (aBound : a < scale) (factorBound : factor < scale) : quotient ≤ n := by
  apply Nat.le_of_lt_succ
  apply Nat.lt_of_mul_lt_mul_left (a := scale)
  have moduli : factor * n ≤ scale * n := Nat.mul_le_mul_right _ factorBound.le
  rw [total, Nat.mul_succ]
  omega

theorem quotient_le_bound {scale quotient a factor n bound : Nat}
    (total : scale * quotient = a + factor * n) (aBound : a ≤ bound) (nBound : n ≤ bound)
    (factorBound : factor < scale) : quotient ≤ bound := by
  obtain ⟨top, rfl⟩ : ∃ top, scale = top + 1 := ⟨scale - 1, by omega⟩
  have moduli : factor * n ≤ top * bound := Nat.mul_le_mul (by omega) nBound
  apply Nat.le_of_mul_le_mul_left _ (Nat.succ_pos top)
  rw [total, Nat.succ_mul]
  omega

theorem bigNumMontMul1_product {a : List (BitVec width)} (length : a.length = numWords) :
    (bigNumMontMul1 a params.n params.n0Inv).length = numWords ∧
      capacity width numWords * value (bigNumMontMul1 a params.n params.n0Inv) ≡
        value a [MOD value params.n] ∧
      value (bigNumMontMul1 a params.n params.n0Inv) ≤ value params.n := by
  have one : (1 : BitVec width).toNat = 1 := by
    simp [Nat.mod_eq_of_lt (Nat.one_lt_two_pow params.wide.ne')]
  have aBound := value_lt a
  rw [length] at aBound
  obtain ⟨exact, row⟩ := bigNumMontMulRow_exact params.wide 1 params.nonempty
    (show (replicate params.n.length (BitVec.ofNat width 0)).length = params.n.length by simp)
    (length.trans params.n_length.symm) params.inverse
  have total := row.total
  have tBound := (rowFactor (replicate params.n.length (BitVec.ofNat width 0)) 1 a
    params.n0Inv).isLt
  rw [value_replicate_zero, one, zero_add, one_mul] at total
  generalize (rowFactor (replicate params.n.length (BitVec.ofNat width 0)) 1 a
    params.n0Inv).toNat = tFirst at total tBound
  -- The first row has room: one number and less than a word of moduli.
  have fits : exact < capacity width params.n.length := by
    have nBound := value_lt params.n
    rw [← params.n_length] at aBound
    have room := quotient_le_bound total (Nat.le_sub_one_of_lt aBound)
      (Nat.le_sub_one_of_lt nBound) tBound
    omega
  have first : ∃ factor < capacity width 1, capacity width 1 *
      value (bigNumMontMulRow (replicate params.n.length (BitVec.ofNat width 0)) 1 a
        params.n params.n0Inv) = value a + factor * value params.n := by
    refine ⟨tFirst, ?_, ?_⟩
    · simpa [capacity] using tBound
    · rw [row.kept fits, ← total]
      simp [capacity]
  obtain ⟨resultLength, factor, factorBound, whole⟩ :=
    rows0_value params (row.length.trans params.n_length) first (params.n.length - 1)
  have count : 1 + (params.n.length - 1) = numWords := by
    have positive := length_pos_iff.mpr params.nonempty
    have length := params.n_length
    omega
  rw [count] at factorBound whole
  refine ⟨resultLength, ?_, ?_⟩
  · rw [bigNumMontMul1, whole]
    exact Nat.add_mul_mod_self_right _ _ _
  · exact quotient_le whole aBound factorBound

end Leave

section Power
variable (params : MontParams width numWords)
variable {a : List (BitVec width)}

/-- The last step of `BigNumPowMod` reduces what is below two moduli. -/
theorem reduce_value {result : List (BitVec width)} (length : result.length = numWords)
    (bound : value result < 2 * value params.n) :
    let final := if bigNumCmp result params.n params.n.length ≠ .lt then
      bigNumSub result params.n else result
    final.length = numWords ∧ value final = value result % value params.n := by
  have sameLength := length.trans params.n_length.symm
  have order := @bigNumCmp_eq _ result params.n params.n.length sameLength.ge le_rfl
  rw [take_length, ← sameLength, take_length, sameLength] at order
  intro final
  by_cases below : value result < value params.n
  · have kept : final = result := by
      have cmp := compare_lt_iff_lt.mpr below
      simp [final, order, cmp]
    rw [kept, Nat.mod_eq_of_lt below]
    exact ⟨length, rfl⟩
  · have above : value params.n ≤ value result := Nat.le_of_not_lt below
    have reduced : final = bigNumSub result params.n := by
      have cmp : compare (value result) (value params.n) ≠ .lt :=
        fun less => below (compare_lt_iff_lt.mp less)
      simp [final, order, cmp]
    rw [reduced, bigNumSub_length sameLength, bigNumSub_value params.wide sameLength above,
      Nat.mod_eq_sub_mod above, Nat.mod_eq_of_lt (by omega)]
    exact ⟨length, rfl⟩

/-- The product the power for `0x10001` ends with. -/
theorem power_65537 (length : a.length = numWords)
    (bounded : value a < value params.n ∨ capacity width numWords ≤ 2 * value params.n) :
    let result := bigNumMontMul
      (Nat.iterate (BigNumMontgomery.squareTwice params.n params.n0Inv) 8
        (bigNumMontMul a params.rSqrMod params.n params.n0Inv)) a params.n params.n0Inv
    result.length = numWords ∧ value result < 2 * value params.n ∧
      value result ≡ value a ^ 0x10001 [MOD value params.n] := by
  have power := (encodes_enter length : Encodes params _ _).squareRepeatedly 8
  obtain ⟨resultLength, product, bound⟩ := bigNumMontMul_product params power.1 length
  refine ⟨resultLength, ?_, Nat.ModEq.cancel_left_of_coprime params.coprime ?_⟩
  · rcases bounded with below | large
    · omega
    · have words := value_lt (bigNumMontMul
        (Nat.iterate (BigNumMontgomery.squareTwice params.n params.n0Inv) 8
          (bigNumMontMul a params.rSqrMod params.n params.n0Inv)) a params.n params.n0Inv)
      rw [resultLength] at words
      omega
  · calc _ ≡ _ [MOD value params.n] := product
      _ ≡ value a ^ 4 ^ 8 * capacity width numWords * value a [MOD value params.n] :=
          power.2.mul_right _
      _ = capacity width numWords * value a ^ 0x10001 := by
          rw [show (0x10001 : Nat) = 4 ^ 8 + 1 from rfl, pow_succ]
          ring

theorem bigNumMontMulOntoB_zero (a : List (BitVec width)) :
    bigNumMontMulOntoB a params.n params.n0Inv =
      replicate params.n.length (BitVec.ofNat width 0) := by
  have still : ∀ aWord : BitVec width,
      bigNumMontMulRow (replicate params.n.length (BitVec.ofNat width 0)) aWord
        (replicate params.n.length (BitVec.ofNat width 0)) params.n params.n0Inv =
      replicate params.n.length (BitVec.ofNat width 0) := by
    intro aWord
    obtain ⟨exact, row⟩ := bigNumMontMulRow_exact params.wide aWord params.nonempty
      length_replicate length_replicate params.inverse
    have head : (replicate params.n.length (BitVec.ofNat width 0)).headD 0 = 0 := by
      cases params.n.length with
      | zero => rfl
      | succ count => rfl
    have low : (bigNumWordAddMul 0 aWord 0).2 = 0 := by
      have sum := bigNumWordAddMul_value 0 aWord 0
      simp only [BitVec.ofNat_eq_ofNat, BitVec.toNat_ofNat, Nat.zero_mod, mul_zero, add_zero] at sum
      exact BitVec.eq_of_toNat_eq (by simpa using Nat.eq_zero_of_add_eq_zero_right sum)
    have factor : rowFactor (replicate params.n.length (BitVec.ofNat width 0)) aWord
        (replicate params.n.length (BitVec.ofNat width 0)) params.n0Inv = 0 := by
      rw [rowFactor, head, low]
      exact BitVec.zero_mul
    have total := row.total
    rw [factor, value_replicate_zero] at total
    have nothing : exact = 0 := by simpa using total
    have fits : exact < capacity width params.n.length := by
      rw [nothing]
      exact capacity_pos _
    apply value_injective (by rw [row.length, length_replicate])
    rw [row.kept fits, nothing, value_replicate_zero]
  unfold bigNumMontMulOntoB
  induction a with
  | nil => rfl
  | cons aWord a ih => rw [foldl_cons, still aWord, ih]

/-- The product the power for `3` ends with: the cube was lost. -/
theorem power_3 (square : List (BitVec width)) :
    let result := bigNumMontMul1 (bigNumMontMulOntoB square params.n params.n0Inv)
      params.n params.n0Inv
    result.length = numWords ∧ value result < 2 * value params.n ∧
      value result ≡ 0 [MOD value params.n] := by
  intro result
  have length : (bigNumMontMulOntoB square params.n params.n0Inv).length = numWords := by
    rw [bigNumMontMulOntoB_zero, length_replicate, params.n_length]
  obtain ⟨resultLength, product, bound⟩ := bigNumMontMul1_product params length
  have small : value result < 2 * value params.n := by
    have positive := params.positive
    have high : value result ≤ value params.n := bound
    omega
  refine ⟨resultLength, small, Nat.ModEq.cancel_left_of_coprime params.coprime ?_⟩
  have lost : value (bigNumMontMulOntoB square params.n params.n0Inv) = 0 := by
    rw [bigNumMontMulOntoB_zero, value_replicate_zero]
  rw [lost] at product
  rw [mul_zero]
  exact product

theorem bigNumPowMod_65537 (length : a.length = numWords)
    (bounded : value a < value params.n ∨ capacity width numWords ≤ 2 * value params.n) :
    ∃ result, bigNumPowMod a 0x10001 params.n params.n0Inv params.rSqrMod = some result ∧
      result.length = numWords ∧ value result = value a ^ 0x10001 % value params.n := by
  obtain ⟨resultLength, bound, residue⟩ := power_65537 params length bounded
  obtain ⟨finalLength, final⟩ := reduce_value params resultLength bound
  exact ⟨_, rfl, finalLength, final.trans residue⟩

theorem bigNumPowMod_3 (a : List (BitVec width)) :
    ∃ result, bigNumPowMod a 3 params.n params.n0Inv params.rSqrMod = some result ∧
      result.length = numWords ∧ value result = 0 := by
  obtain ⟨resultLength, bound, residue⟩ := power_3 params
    (bigNumMontMul (bigNumMontMul a params.rSqrMod params.n params.n0Inv)
      (bigNumMontMul a params.rSqrMod params.n params.n0Inv) params.n params.n0Inv)
  obtain ⟨finalLength, final⟩ := reduce_value params resultLength bound
  exact ⟨_, rfl, finalLength, (final.trans residue).trans (Nat.zero_mod _)⟩

end Power

/-- What `BigNumPowMod` is for: the reduced power, and on the way to it no row that
loses a carry or needs more than one subtraction to stay within its words. -/
structure PowModExact (params : MontParams width numWords) (a : List (BitVec width))
    (exponent : Nat) : Prop where
  power : ∃ result, bigNumPowMod a exponent params.n params.n0Inv params.rSqrMod = some result ∧
    result.length = numWords ∧ value result = value a ^ exponent % value params.n
  rows : ∀ result aWord b, result.length = numWords → b.length = numWords →
    ∃ exact, RowExact result aWord b params.n params.n0Inv exact ∧
      value (bigNumMontMulRow result aWord b params.n params.n0Inv) < capacity width numWords
  rows0 : ∀ result, result.length = numWords →
    2 ^ width * value (bigNumMontMulRow0 result params.n params.n0Inv) =
        value result + (result.headD 0 * params.n0Inv).toNat * value params.n ∧
      value (bigNumMontMulRow0 result params.n params.n0Inv) < capacity width numWords

theorem rows_exact (params : MontParams width numWords) {result b : List (BitVec width)}
    (aWord : BitVec width) (resultLength : result.length = numWords)
    (multiplier : b.length = numWords) :
    ∃ exact, RowExact result aWord b params.n params.n0Inv exact ∧
      value (bigNumMontMulRow result aWord b params.n params.n0Inv) < capacity width numWords := by
  obtain ⟨exact, row⟩ := bigNumMontMulRow_exact params.wide aWord params.nonempty
    (resultLength.trans params.n_length.symm) (multiplier.trans params.n_length.symm)
    params.inverse
  refine ⟨exact, row, ?_⟩
  have bound := value_lt (bigNumMontMulRow result aWord b params.n params.n0Inv)
  rwa [row.length, params.n_length] at bound

theorem rows0_exact (params : MontParams width numWords) {result : List (BitVec width)}
    (resultLength : result.length = numWords) :
    2 ^ width * value (bigNumMontMulRow0 result params.n params.n0Inv) =
        value result + (result.headD 0 * params.n0Inv).toNat * value params.n ∧
      value (bigNumMontMulRow0 result params.n params.n0Inv) < capacity width numWords := by
  have sameLength := resultLength.trans params.n_length.symm
  refine ⟨bigNumMontMulRow0_value params.nonempty sameLength params.inverse, ?_⟩
  have bound := value_lt (bigNumMontMulRow0 result params.n params.n0Inv)
  rwa [bigNumMontMulRow0_length params.n0Inv params.nonempty sameLength, params.n_length] at bound

/-- The power is right for `0x10001`. For `3` the answer is always zero, because the
cube is computed into the buffer of one of its factors. -/
theorem bigNumPowMod_exact_iff (size : WordSize) {numWords : Nat}
    (params : MontParams size.numBits numWords) {a : List (BitVec size.numBits)}
    (length : a.length = numWords) {exponent : Nat} (supported : exponent = 3 ∨ exponent = 0x10001)
    (bounded : value a < value params.n ∨
      capacity size.numBits numWords ≤ 2 * value params.n) :
    PowModExact params a exponent ↔ exponent = 0x10001 ∨ value params.n ∣ value a ^ 3 := by
  constructor
  · intro exact
    rcases supported with rfl | rfl
    · right
      obtain ⟨result, computed, _, power⟩ := exact.power
      obtain ⟨result', computed', _, zero⟩ := bigNumPowMod_3 params a
      rw [computed] at computed'
      cases computed'
      rw [zero] at power
      exact Nat.dvd_of_mod_eq_zero power.symm
    · exact .inl rfl
  · intro condition
    refine ⟨?_, fun result aWord b => rows_exact params aWord, fun result => rows0_exact params⟩
    rcases supported with rfl | rfl
    · have divides : value params.n ∣ value a ^ 3 := by
        rcases condition with clash | divides
        · cases clash
        · exact divides
      obtain ⟨result, computed, resultLength, zero⟩ := bigNumPowMod_3 params a
      exact ⟨result, computed, resultLength, zero.trans (Nat.mod_eq_zero_of_dvd divides).symm⟩
    · exact bigNumPowMod_65537 params length bounded

def smallParams : MontParams WordSize.uint32.numBits 1 where
  n := [4294967291]
  n0Inv := 3435973837
  rSqrMod := [25]
  n_length := rfl
  rSqrMod_length := rfl
  odd := rfl
  inverse := rfl
  rSqr := rfl

theorem bigNumPowMod_exact_small : PowModExact smallParams [7] 0x10001 :=
  (bigNumPowMod_exact_iff .uint32 smallParams (show [(7 : BitVec _)].length = 1 from rfl)
    (.inr rfl) (.inl (by decide))).mpr (.inl rfl)

/-- The cube of seven is 343, and the answer is zero. -/
theorem bigNumPowMod_cube_lost :
    bigNumPowMod [7] 3 smallParams.n smallParams.n0Inv smallParams.rSqrMod = some [0] ∧
      ¬ PowModExact smallParams [7] 3 := by
  have answer : bigNumPowMod [7] 3 smallParams.n smallParams.n0Inv smallParams.rSqrMod =
      some [0] := by decide
  refine ⟨answer, ?_⟩
  intro exact
  obtain ⟨result, computed, _, power⟩ := exact.power
  rw [answer] at computed
  cases computed
  exact absurd power (by decide)

end OpenCore.MontgomeryPower
