import OpenCore.ModDivision
import Mathlib.Data.Nat.Prime.Basic

/-!
`BigNumCalculateMontParams`: the word inverse by the extended Euclidean algorithm
and the square of `R` by long division. The word inverse works modulo the word base
although that base is not a word; its first two steps are unrolled for that reason,
and the first division is done by subtraction.
-/

namespace OpenCore.MontgomeryParameters

open Base WordArray BigNumPrimitives BigNumShifts BigNumMod ModDivision List

variable {width : Nat}

def ocBnMaxLen (width : Nat) : Nat := 65536 / (width / 8) % u16

def ocBnMontMaxLen (width : Nat) : Nat := ocBnMaxLen width / 2 - 1

def ocBnMontRsqrLen (numWords : Nat) : Nat := (numWords + 1) * 2 % u16

def scratchWords (numWords : Nat) : Nat := ocBnMontRsqrLen numWords * 3

/-- The `do` loop of `BigNumMontInverse`: `Dividend` and `Div` when it ends. -/
def inverseDivide (divisor : BitVec width) :
    Nat → BitVec width → BitVec width → Option (BitVec width × BitVec width)
  | 0, _, _ => none
  | fuel + 1, dividend, div =>
    let dividend := dividend - divisor
    let div := div + 1
    if dividend ≥ divisor then inverseDivide divisor fuel dividend div
    else some (dividend, div)

/-- The `while` loop of `BigNumMontInverse`: `Dividend` and `Y` when it ends. -/
def inverseEuclid :
    Nat → BitVec width → BitVec width → BitVec width → BitVec width →
      Option (BitVec width × BitVec width)
  | 0, _, _, _, _ => none
  | fuel + 1, dividend, divisor, y, x =>
    if divisor ≠ 0 then
      inverseEuclid fuel divisor (dividend % divisor) x (y - dividend / divisor * x)
    else some (dividend, y)

def bigNumMontInverse (fuel : Nat) (a : List (BitVec width)) : Option (BitVec width) :=
  let first := a.headD 0
  if first = 0 then some 0
  else
    (inverseDivide first fuel 0 0).bind fun (mod, div) =>
      (inverseEuclid fuel first mod 1 (0 - div)).map fun (dividend, y) =>
        if dividend ≠ 1 then 0 else 0 - y

structure MontResult (width : Nat) where
  n0Inv : BitVec width
  rSqrMod : Option (List (BitVec width))
  checks : List Check

def rSqrNumber (width numWords : Nat) : List (BitVec width) :=
  bigNumOrWord (replicate (ocBnMontRsqrLen numWords) (BitVec.ofNat width 0))
    (ocBnMontRsqrLen numWords) 1 (2 * (numWords * width))

/-- What `BigNumCalculateMontParams` checks and touches before the word inverse is known. -/
def enteredChecks (width numWords : Nat) : List Check :=
  [.assert (0 < numWords), .assert (numWords ≤ ocBnMontMaxLen width),
    Pointer.words ⟨.modulus, 0⟩ 0 1]

def preparedChecks (width numWords : Nat) : List Check :=
  enteredChecks width numWords ++
    [Pointer.words ⟨.scratch, 0⟩ 0 (ocBnMontRsqrLen numWords),
      .assert (0 < ocBnMontRsqrLen numWords),
      .assert (2 * (numWords * width) / width < ocBnMontRsqrLen numWords),
      Pointer.words ⟨.scratch, 0⟩ (2 * (numWords * width) / width) 1]

def bigNumCalculateMontParams (fuel : Nat) (n : List (BitVec width)) :
    Option (MontResult width) :=
  let numWords := n.length
  (bigNumMontInverse fuel n).bind fun n0Inv =>
    if n0Inv = 0 then some ⟨0, none, enteredChecks width numWords⟩
    else
      (bigNumMod fuel n ⟨.modulus, 0⟩ (rSqrNumber width numWords) ⟨.scratch, 0⟩
        ⟨.scratch, ocBnMontRsqrLen numWords⟩ ⟨.rSqrMod, 0⟩).map fun (rSqrMod, checks) =>
          ⟨n0Inv, some rSqrMod, preparedChecks width numWords ++ checks⟩

section Inverse
variable {a : BitVec width}

variable {fuel : Nat}

/-- The division by subtraction: it ends below the divisor, having taken whole divisors
from the word base. -/
theorem inverseDivide_spec (some : a.toNat ≠ 0) {dividend div : BitVec width}
    (counted : dividend = -(div * a))
    (whole : ∃ count, dividend.toNat + count * a.toNat = 2 ^ width)
    (enough : dividend.toNat ≤ fuel * a.toNat) (large : a ≤ dividend) :
    ∃ mod quotient, inverseDivide a fuel dividend div = Option.some (mod, quotient) ∧
      mod = -(quotient * a) ∧ mod.toNat < a.toNat ∧
      ∃ count, mod.toNat + count * a.toNat = 2 ^ width := by
  induction fuel generalizing dividend div with
  | zero =>
    rw [BitVec.le_def] at large
    omega
  | succ fuel ih =>
    obtain ⟨count, total⟩ := whole
    rw [BitVec.le_def] at large
    have lower : (dividend - a).toNat = dividend.toNat - a.toNat := by
      rw [BitVec.toNat_sub_of_le (BitVec.le_def.mpr large)]
    have counted' : dividend - a = -((div + 1) * a) := by
      rw [counted]
      grind
    have whole' : (dividend - a).toNat + (count + 1) * a.toNat = 2 ^ width := by
      rw [lower, Nat.succ_mul]
      omega
    rw [inverseDivide]
    by_cases more : dividend - a ≥ a
    · simp only [more, ↓reduceIte]
      apply ih counted' ⟨_, whole'⟩ _ more
      rw [lower]
      rw [Nat.succ_mul] at enough
      omega
    · simp only [more, ↓reduceIte]
      refine ⟨_, _, rfl, counted', ?_, _, whole'⟩
      exact BitVec.lt_def.mp (BitVec.not_le.mp more)

theorem inverseDivide_base (some : a.toNat ≠ 0) (enough : 2 ^ width < fuel) :
    ∃ mod quotient, inverseDivide a fuel 0 0 = Option.some (mod, quotient) ∧
      mod = -(quotient * a) ∧ mod.toNat < a.toNat ∧
      ∃ count, mod.toNat + count * a.toNat = 2 ^ width := by
  obtain ⟨less, rfl⟩ : ∃ less, fuel = less + 1 := ⟨fuel - 1, by omega⟩
  have aBound := a.isLt
  have lower : (0 - a).toNat = 2 ^ width - a.toNat := by
    rw [BitVec.toNat_sub]
    simp only [BitVec.ofNat_eq_ofNat, BitVec.toNat_ofNat, Nat.zero_mod, add_zero]
    exact Nat.mod_eq_of_lt (by omega)
  have counted : 0 - a = -((0 + 1) * a) := by grind
  have whole : (0 - a).toNat + 1 * a.toNat = 2 ^ width := by omega
  rw [inverseDivide]
  by_cases more : 0 - a ≥ a
  · simp only [more, ↓reduceIte]
    apply inverseDivide_spec some counted ⟨_, whole⟩ _ more
    have scaled : less ≤ less * a.toNat := Nat.le_mul_of_pos_right _ (Nat.pos_of_ne_zero some)
    omega
  · simp only [more, ↓reduceIte]
    refine ⟨_, _, rfl, counted, ?_, _, whole⟩
    exact BitVec.lt_def.mp (BitVec.not_le.mp more)

/-- The Euclidean loop keeps both rows multiples of the number and ends with the
greatest common divisor. -/
theorem inverseEuclid_spec {dividend divisor y x : BitVec width}
    (upper : y * a = dividend) (lower : x * a = divisor) (enough : divisor.toNat < fuel) :
    ∃ result, inverseEuclid fuel dividend divisor y x =
        Option.some (BitVec.ofNat width (Nat.gcd dividend.toNat divisor.toNat), result) ∧
      result * a = BitVec.ofNat width (Nat.gcd dividend.toNat divisor.toNat) := by
  induction fuel generalizing dividend divisor y x with
  | zero => omega
  | succ fuel ih =>
    rw [inverseEuclid]
    by_cases ended : divisor = 0
    · have gcd : BitVec.ofNat width (Nat.gcd dividend.toNat divisor.toNat) = dividend := by
        rw [ended]
        simp
      rw [gcd, if_neg (not_not.mpr ended)]
      exact ⟨y, rfl, upper⟩
    · have positive : 0 < divisor.toNat := by
        apply Nat.pos_of_ne_zero
        intro zero
        exact ended (BitVec.eq_of_toNat_eq (by simpa using zero))
      have remainder : (dividend % divisor).toNat = dividend.toNat % divisor.toNat :=
        BitVec.toNat_umod
      have smaller := Nat.mod_lt dividend.toNat positive
      have next : (y - dividend / divisor * x) * a = dividend % divisor := by
        have divided : dividend = dividend / divisor * divisor + dividend % divisor := by
          have product := Nat.div_mul_le_self dividend.toNat divisor.toNat
          have fits := dividend.isLt
          apply BitVec.eq_of_toNat_eq
          rw [BitVec.toNat_add, BitVec.toNat_mul, BitVec.toNat_udiv, BitVec.toNat_umod,
            Nat.mod_eq_of_lt (lt_of_le_of_lt product fits), Nat.div_add_mod', Nat.mod_eq_of_lt fits]
        have expanded : (y - dividend / divisor * x) * a =
            y * a - dividend / divisor * (x * a) := by grind
        rw [expanded, upper, lower]
        grind
      obtain ⟨result, run, product⟩ := ih lower next (by rw [remainder]; omega)
      have gcdStep : Nat.gcd divisor.toNat (dividend.toNat % divisor.toNat) =
          Nat.gcd dividend.toNat divisor.toNat := by
        rw [Nat.gcd_comm dividend.toNat, Nat.gcd_rec divisor.toNat dividend.toNat, Nat.gcd_comm]
      rw [remainder, gcdStep] at run product
      rw [if_pos ended]
      exact ⟨result, run, product⟩

theorem bigNumMontInverse_spec {n : List (BitVec width)} {fuel : Nat} (enough : 2 ^ width < fuel) :
    ∃ n0Inv, bigNumMontInverse fuel n = Option.some n0Inv ∧
      ((n.headD 0).toNat % 2 = 1 → n0Inv * n.headD 0 = -1) ∧
      ((n.headD 0).toNat % 2 = 0 → n0Inv = 0) := by
  rw [bigNumMontInverse]
  generalize n.headD 0 = a
  by_cases zero : a = 0
  · refine ⟨0, by simp [zero], ?_, fun _ => rfl⟩
    intro odd
    rw [zero] at odd
    simp at odd
  · have some : a.toNat ≠ 0 := fun none => zero (BitVec.eq_of_toNat_eq (by simpa using none))
    obtain ⟨mod, div, divided, modEq, modBound, count, whole⟩ := inverseDivide_base some enough
    have lower : (0 - div) * a = mod := by
      rw [modEq]
      grind
    have upper : 1 * a = a := BitVec.one_mul a
    have aBound := a.isLt
    obtain ⟨y, run, product⟩ := inverseEuclid_spec upper lower (show mod.toNat < fuel by omega)
    have gcd : Nat.gcd a.toNat mod.toNat = Nat.gcd a.toNat (2 ^ width) := by
      rw [← whole, Nat.gcd_add_mul_right_right]
    rw [gcd] at run product
    simp only [zero, ↓reduceIte, divided, Option.bind_some, run, Option.map_some]
    refine ⟨_, rfl, ?_, ?_⟩
    · intro odd
      have coprime : Nat.gcd a.toNat (2 ^ width) = 1 :=
        Nat.Coprime.pow_right _ (Nat.coprime_two_right.mpr (Nat.odd_iff.mpr odd))
      rw [coprime] at product ⊢
      rw [if_neg (by simp)]
      have negated : (0 - y) * a = -(y * a) := by grind
      rw [negated, product]
      rfl
    · intro even
      have wide : width ≠ 0 := by
        rintro rfl
        simp at aBound
        omega
      have divides : 2 ∣ Nat.gcd a.toNat (2 ^ width) :=
        Nat.dvd_gcd (Nat.dvd_of_mod_eq_zero even) (dvd_pow_self 2 wide)
      have bound : Nat.gcd a.toNat (2 ^ width) < 2 ^ width :=
        lt_of_le_of_lt (Nat.gcd_le_left _ (Nat.pos_of_ne_zero some)) aBound
      apply if_pos
      intro one
      have unit := congrArg BitVec.toNat one
      rw [BitVec.toNat_ofNat, Nat.mod_eq_of_lt bound] at unit
      have word : (1 : BitVec width).toNat = 1 := by
        simp [Nat.mod_eq_of_lt (Nat.one_lt_two_pow wide)]
      omega

end Inverse

section Start

def TopWordUsed (n : List (BitVec width)) : Prop := n.getD (n.length - 1) 0 ≠ 0

theorem topWordUsed_iff {n : List (BitVec width)} (some : n ≠ []) :
    TopWordUsed n ↔ width * (n.length - 1) < Nat.size (value n) := by
  have positive : 0 < n.length := length_pos_iff.mpr some
  obtain ⟨count, countEq⟩ : ∃ count, n.length = count + 1 := ⟨n.length - 1, by omega⟩
  have split := value_take_succ n (show count < n.length by omega)
  rw [← countEq, take_length] at split
  have low := value_lt (n.take count)
  rw [length_take, min_eq_left (by omega)] at low
  rw [TopWordUsed, countEq, Nat.add_sub_cancel, Nat.lt_size, ← capacity_eq_two_pow]
  constructor
  · intro used
    have top : 0 < (n.getD count 0).toNat := by
      apply Nat.pos_of_ne_zero
      intro zero
      exact used (BitVec.eq_of_toNat_eq (by simpa using zero))
    rw [split]
    exact le_trans (Nat.le_mul_of_pos_right _ top) (Nat.le_add_left _ _)
  · intro large zero
    rw [zero, BitVec.ofNat_eq_ofNat, BitVec.toNat_ofNat, Nat.zero_mod, mul_zero, add_zero] at split
    omega

theorem rSqrNumber_eq (wide : 0 < width) {numWords : Nat} (fits : (numWords + 1) * 2 < u16) :
    rSqrNumber width numWords = replicate (2 * numWords) (BitVec.ofNat width 0) ++ [1, 0] := by
  have length : ocBnMontRsqrLen numWords = 2 * numWords + 2 := by
    rw [ocBnMontRsqrLen, Nat.mod_eq_of_lt fits]
    ring
  have index : 2 * (numWords * width) / width = 2 * numWords := by
    rw [← mul_assoc, Nat.mul_div_cancel _ wide]
  have aligned : 2 * (numWords * width) % width = 0 := by
    rw [← mul_assoc, Nat.mul_mod_left]
  have zeros : replicate (2 * numWords + 2) (BitVec.ofNat width 0) =
      replicate (2 * numWords) (BitVec.ofNat width 0) ++ [0, 0] := by
    rw [replicate_add]
    rfl
  rw [rSqrNumber, bigNumOrWord, length, index, aligned, if_pos (by omega), zeros,
    set_append_right _ _ (by simp)]
  simp

theorem rSqrNumber_facts (wide : 0 < width) {numWords : Nat} (fits : (numWords + 1) * 2 < u16) :
    (rSqrNumber width numWords).length = 2 * numWords + 2 ∧
      bigNumMostSignificantWord (rSqrNumber width numWords) (2 * numWords + 2) = 2 * numWords ∧
      (rSqrNumber width numWords).getD (2 * numWords) 0 = 1 ∧
      value ((rSqrNumber width numWords).take (2 * numWords + 1)) =
        capacity width (2 * numWords) := by
  have one : (1 : BitVec width) ≠ 0 := by
    intro same
    have values := congrArg BitVec.toNat same
    simp [Nat.mod_eq_of_lt (Nat.one_lt_two_pow wide.ne')] at values
  have unit : 1 % 2 ^ width = 1 := Nat.mod_eq_of_lt (Nat.one_lt_two_pow wide.ne')
  rw [rSqrNumber_eq wide fits]
  have word : (replicate (2 * numWords) (BitVec.ofNat width 0) ++ [1, 0]).getD
      (2 * numWords) 0 = 1 := by simp [List.getD]
  have above : (replicate (2 * numWords) (BitVec.ofNat width 0) ++ [1, 0]).getD
      (2 * numWords + 1) 0 = 0 := by simp [List.getD]
  refine ⟨by simp, ?_, word, ?_⟩
  · rw [bigNumMostSignificantWord, if_neg (not_not.mpr above), bigNumMostSignificantWord, word,
      if_pos one]
  · rw [take_append, take_of_length_le (by simp), value_append, value_replicate_zero]
    simp [unit]

variable {sizes : Buffer → Nat} {call : ModCall width}

theorem size_capacity (count : Nat) : Nat.size (capacity width count) = width * count + 1 := by
  rw [capacity_eq_two_pow, Nat.size_pow]

theorem modStart_fields (wide : 0 < width) (fits : (call.b.length + 1) * 2 < u16)
    (some : call.b ≠ []) (aPointer : Pointer) :
    let start := modStart call (rSqrNumber width call.b.length) aPointer
    let bits := 2 * call.b.length * width + 1
    start.modTmp = (rSqrNumber width call.b.length).take (2 * call.b.length + 1) ∧
      start.sigWordsModTmp = 2 * call.b.length + 1 ∧
      start.bigDivExp = bits - Nat.size (value call.b) ∧
      start.bigDiv = bigNumLeftShift (2 * call.b.length + 1) call.b
        (bits - Nat.size (value call.b)) ∧
      start.sigWordsBigDiv = 2 * call.b.length + 1 ∧ start.sigBitsBigDiv = bits := by
  obtain ⟨length, top, word, _⟩ := rSqrNumber_facts wide fits
  have unit : Nat.size (1 : BitVec width).toNat = 1 := by
    simp [Nat.mod_eq_of_lt (Nat.one_lt_two_pow wide.ne'), Nat.size_one]
  have divisorBits := bigNumSignificantBits_eq call.b (length_pos_iff.mpr some) le_rfl
  rw [take_length] at divisorBits
  simp only [modStart, ModState.log, length, top, word, bigNumSignificantBitsWord_eq, unit,
    divisorBits, and_self]

theorem startShift (wide : 0 < width) {numWords bits : Nat} (long : width * (numWords - 1) < bits)
    (short : bits ≤ width * numWords) :
    let exponent := 2 * numWords * width + 1 - bits
    (exponent % width ≠ 0 → exponent / width = numWords) ∧
      (exponent % width = 0 → exponent / width = numWords + 1) := by
  obtain ⟨count, rfl⟩ : ∃ count, numWords = count + 1 := by
    cases numWords with
    | zero => omega
    | succ count => exact ⟨count, rfl⟩
  obtain ⟨extra, extraEq, positive, small⟩ : ∃ extra,
      2 * (count + 1) * width + 1 - bits = width * (count + 1) + extra ∧ 0 < extra ∧
        extra ≤ width := by
    refine ⟨width * (count + 1) + 1 - bits, ?_, ?_, ?_⟩
    · have double : 2 * (count + 1) * width = width * (count + 1) + width * (count + 1) := by ring
      omega
    · omega
    · rw [Nat.add_sub_cancel] at long
      rw [Nat.mul_succ]
      omega
  intro exponent
  have remainder : exponent % width = extra % width := by
    rw [show exponent = width * (count + 1) + extra from extraEq, Nat.mul_add_mod]
  have quotient : exponent / width = count + 1 + extra / width := by
    rw [show exponent = width * (count + 1) + extra from extraEq, Nat.mul_add_div wide]
  rcases lt_or_eq_of_le small with below | rfl
  · rw [remainder, quotient, Nat.mod_eq_of_lt below, Nat.div_eq_of_lt below]
    exact ⟨fun _ => rfl, fun zero => by omega⟩
  · rw [remainder, quotient, Nat.mod_self, Nat.div_self wide]
    exact ⟨fun some => absurd rfl some, fun _ => rfl⟩

theorem modStart_inv (wide : 0 < width) (fits : (call.b.length + 1) * 2 < u16)
    (some : call.b ≠ []) (used : TopWordUsed call.b) (aPointer : Pointer) :
    ModInv call (capacity width (2 * call.b.length)) (2 * call.b.length + 1)
      (modStart call (rSqrNumber width call.b.length) aPointer) := by
  obtain ⟨modTmp, modWords, exponent, bigDiv, divWords, divBits⟩ :=
    modStart_fields wide fits some aPointer
  obtain ⟨length, _, _, dividend⟩ := rSqrNumber_facts wide fits
  have long := (topWordUsed_iff some).mp used
  have short := size_le_iff.mpr (value_lt call.b)
  have nonzero : value call.b ≠ 0 := by
    intro zero
    rw [zero, Nat.size_zero] at long
    omega
  obtain ⟨unaligned, aligned⟩ := startShift wide long short
  have divLength := @bigNumLeftShift_length width (2 * call.b.length + 1) _ call.b
    (fun bits => by rw [unaligned bits]; ring) (fun bits => by rw [aligned bits]; omega)
  have divValue := @bigNumLeftShift_value width wide (2 * call.b.length + 1) _ call.b
    (fun bits => by rw [aligned bits]; omega)
  generalize startEq : modStart call (rSqrNumber width call.b.length) aPointer = start at *
  have bound : Nat.size (value call.b) ≤ 2 * call.b.length * width + 1 := by
    have double : 2 * call.b.length * width = width * call.b.length + width * call.b.length := by
      ring
    omega
  have divSize : Nat.size (value start.bigDiv) = 2 * call.b.length * width + 1 := by
    have scaled := size_add_mul
      (Nat.two_pow_pos (2 * call.b.length * width + 1 - Nat.size (value call.b))) nonzero
    rw [zero_add] at scaled
    rw [bigDiv, divValue, scaled]
    omega
  have modValue : value start.modTmp = capacity width (2 * call.b.length) := by
    rw [modTmp, dividend]
  have modSize : Nat.size (value start.modTmp) = 2 * call.b.length * width + 1 := by
    rw [modValue, size_capacity]
    ring
  have words : wordsFor width (2 * call.b.length * width + 1) = 2 * call.b.length + 1 := by
    rw [wordsFor, show 2 * call.b.length * width + 1 + (width - 1) =
      (2 * call.b.length + 1) * width by
        rw [add_mul (2 * call.b.length), one_mul]; omega, Nat.mul_div_cancel _ wide]
  refine ⟨?_, ?_, ?_, ?_, ?_, ?_, ?_, ?_⟩
  · rw [modTmp, length_take, length]
    omega
  · rw [bigDiv, divLength]
  · rw [bigDiv, divValue, exponent, mul_comm]
  · left
    rw [modValue]
    -- Both numbers have the same length, so the dividend is below the double.
    symm
    apply Nat.mod_eq_of_lt
    have upper := Nat.lt_size_self (capacity width (2 * call.b.length))
    rw [← modValue, modSize] at upper
    have lower : 2 ^ (2 * call.b.length * width) ≤ value start.bigDiv :=
      Nat.lt_size.mp (by rw [divSize]; omega)
    rw [modValue, pow_succ] at upper
    omega
  · rw [divBits, divSize]
  · rw [divWords, divBits, words]
  · left
    rw [modSize, divBits]
  · rw [modWords, modSize, words]

/-- The shift of the divisor passes its assertions only if the divisor uses its top word. -/
theorem leftShiftChecks_safe_iff (wide : 0 < width) {b : List (BitVec width)} (some : b ≠ [])
    (nonzero : value b ≠ 0) {bPointer divPointer : Pointer}
    (modulus : bPointer.offset + b.length ≤ sizes bPointer.buffer)
    (room : divPointer.offset + (2 * b.length + 1) ≤ sizes divPointer.buffer) :
    Safe sizes (leftShiftChecks width divPointer (2 * b.length + 1) bPointer b.length
        (2 * b.length * width + 1 - Nat.size (value b))) ↔ TopWordUsed b := by
  have positive : 0 < b.length := length_pos_iff.mpr some
  have short := size_le_iff.mpr (value_lt b)
  have divisorSize : 0 < Nat.size (value b) := Nat.size_pos.mpr (Nat.pos_of_ne_zero nonzero)
  constructor
  · intro safe
    by_contra unused
    rw [topWordUsed_iff some, not_lt] at unused
    -- Without the top word the divisor has to move up by more words than it is long.
    have far : (b.length + 1) * width + 1 ≤ 2 * b.length * width + 1 - Nat.size (value b) := by
      obtain ⟨count, countEq⟩ : ∃ count, b.length = count + 1 := ⟨b.length - 1, by omega⟩
      rw [countEq, Nat.add_sub_cancel] at unused
      rw [countEq]
      have double : 2 * (count + 1) * width = (count + 1 + 1) * width + width * count := by ring
      omega
    generalize 2 * b.length * width + 1 - Nat.size (value b) = exponent at *
    have words : b.length + 1 ≤ exponent / width := by
      rw [Nat.le_div_iff_mul_le wide]
      omega
    simp only [leftShiftChecks, safe_append] at safe
    by_cases aligned : exponent % width = 0
    · have strictly : b.length + 1 ≠ exponent / width := by
        intro same
        have exact := Nat.div_add_mod exponent width
        rw [aligned, ← same, add_zero, mul_comm] at exact
        omega
      rw [if_neg (not_not.mpr aligned)] at safe
      simp only [leftShiftWordsChecks, safe_append, safe_cons, fits_assert,
        decide_eq_true_eq] at safe
      omega
    · rw [if_pos aligned] at safe
      simp only [leftShiftWordsAndBitsChecks, safe_cons, fits_assert, decide_eq_true_eq] at safe
      omega
  · intro used
    have long := (topWordUsed_iff some).mp used
    obtain ⟨unaligned, aligned⟩ := startShift wide long short
    generalize 2 * b.length * width + 1 - Nat.size (value b) = exponent at *
    simp only [leftShiftChecks, safe_append, safe_cons, safe_nil, fits_assert, decide_eq_true_eq,
      and_true]
    refine ⟨⟨by omega, positive⟩, ?_⟩
    have inWord := Nat.mod_lt exponent wide
    by_cases even : exponent % width = 0
    · have words := aligned even
      rw [if_neg (not_not.mpr even), words]
      simp only [leftShiftWordsChecks, safe_append, safe_cons, safe_nil, fits_assert,
        decide_eq_true_eq, and_true]
      rw [if_neg (by omega)]
      exact ⟨⟨by omega, positive, by omega, by omega, fits_words modulus (by omega),
        fits_words room (by omega), fits_words room (by omega)⟩, safe_nil⟩
    · have words := unaligned even
      rw [if_pos even, words]
      simp only [leftShiftWordsAndBitsChecks, safe_cons, safe_nil, fits_assert, decide_eq_true_eq,
        and_true]
      exact ⟨by omega, positive, by omega, Nat.pos_of_ne_zero even, inWord, positive,
        fits_words modulus (by omega), fits_words room (by omega), fits_words room (by omega)⟩

end Start

section Division

def montSizes (numWords : Nat) : Buffer → Nat
  | .modulus => numWords
  | .rSqrMod => numWords
  | .scratch => scratchWords numWords

def rSqrCall (n : List (BitVec width)) : ModCall width :=
  ⟨n, ⟨.modulus, 0⟩, ⟨.scratch, 2 * n.length + 2⟩,
    ⟨.scratch, 2 * n.length + 2 + (2 * n.length + 1)⟩⟩

def rSqrStart (n : List (BitVec width)) : ModState width :=
  modStart (rSqrCall n) (rSqrNumber width n.length) ⟨.scratch, 0⟩

variable {n : List (BitVec width)}

theorem scratchWords_eq {numWords : Nat} (fits : (numWords + 1) * 2 < u16) :
    scratchWords numWords = 6 * numWords + 6 := by
  rw [scratchWords, ocBnMontRsqrLen, Nat.mod_eq_of_lt fits]
  ring

theorem rSqrRoom (fits : (n.length + 1) * 2 < u16) :
    Room (montSizes n.length) (rSqrCall n) (2 * n.length + 1) := by
  have scratch := scratchWords_eq fits
  constructor
  · simp [rSqrCall, montSizes]
  · simp only [rSqrCall, montSizes, scratch]
    omega
  · simp only [rSqrCall, montSizes, scratch]
    omega

theorem rSqrStart_inv (wide : 0 < width) (fits : (n.length + 1) * 2 < u16) (some : n ≠ [])
    (used : TopWordUsed n) :
    ModInv (rSqrCall n) (capacity width (2 * n.length)) (2 * n.length + 1) (rSqrStart n) :=
  @modStart_inv width (rSqrCall n) wide fits some used ⟨.scratch, 0⟩

theorem rSqrStart_safe_iff (wide : 0 < width) (fits : (n.length + 1) * 2 < u16) (some : n ≠ [])
    (nonzero : value n ≠ 0) :
    Safe (montSizes n.length) (rSqrStart n).checks ↔ TopWordUsed n := by
  have positive : 0 < n.length := length_pos_iff.mpr some
  obtain ⟨length, top, word, dividend⟩ := rSqrNumber_facts wide fits
  have room := rSqrRoom fits
  have shift := leftShiftChecks_safe_iff wide some nonzero room.modulus room.bigDiv
  have scratch := scratchWords_eq fits
  have unit : Nat.size (1 : BitVec width).toNat = 1 := by
    simp [Nat.mod_eq_of_lt (Nat.one_lt_two_pow wide.ne'), Nat.size_one]
  have divisorBits := bigNumSignificantBits_eq n positive le_rfl
  rw [take_length] at divisorBits
  have dividendBits := bigNumSignificantBits_eq (rSqrNumber width n.length)
    (Nat.succ_pos (2 * n.length)) (by rw [length]; omega)
  rw [Nat.succ_eq_add_one, dividend, size_capacity] at dividendBits
  have bound : Nat.size (value n) ≤ 2 * n.length * width + 1 := by
    have double : 2 * n.length * width = width * n.length + width * n.length := by ring
    have short := size_le_iff.mpr (value_lt n)
    omega
  constructor
  · intro safe
    simp only [rSqrStart, modStart, ModState.log, safe_append, length, top, word,
      bigNumSignificantBitsWord_eq, unit, rSqrCall, divisorBits] at safe
    exact shift.mp safe.1.2
  · intro used
    have inv := rSqrStart_inv wide fits some used
    have checked : Fits (montSizes n.length) (lengthCheck (rSqrStart n)) :=
      lengthCheck_fits wide nonzero inv
    have dividendWords : (0 : Nat) + (2 * n.length + 2) ≤ scratchWords n.length := by omega
    refine safe_append.mpr ⟨safe_append.mpr ⟨?_, ?_⟩, ?_⟩
    · simp only [length, top, word, bigNumSignificantBitsWord_eq, unit, rSqrCall, divisorBits,
        dividendBits]
      simp only [safe_cons, safe_nil, fits_assert, decide_eq_true_eq, and_true]
      exact ⟨decide_eq_true positive, by omega, by omega, fits_words dividendWords (by omega),
        by rw [mul_comm], fits_words dividendWords (by omega), fits_words room.modTmp (by omega),
        fits_words room.modulus (show 0 + n.length ≤ n.length by omega), bound⟩
    · simp only [length, top, word, bigNumSignificantBitsWord_eq, unit, rSqrCall, divisorBits]
      exact shift.mpr used
    · exact safe_cons.mpr ⟨checked, safe_nil⟩

/-- No step of the long division of `R` squared loses a word or more at once. -/
def GapsWithinWord (n : List (BitVec width)) : Prop :=
  ∀ exponent, 0 < exponent →
    GapWithinWord width (value n) (capacity width (2 * n.length)) exponent

theorem rSqrStart_gaps (wide : 0 < width) (fits : (n.length + 1) * 2 < u16) (some : n ≠ [])
    (used : TopWordUsed n) (nonzero : value n ≠ 0) :
    GapsLeft (rSqrCall n) (capacity width (2 * n.length)) (rSqrStart n) ↔ GapsWithinWord n := by
  have inv := rSqrStart_inv wide fits some used
  obtain ⟨_, _, _, dividend⟩ := rSqrNumber_facts wide fits
  have modTmp : value (rSqrStart n).modTmp = capacity width (2 * n.length) := by
    obtain ⟨modTmp, _⟩ := @modStart_fields width (rSqrCall n) wide fits some ⟨.scratch, 0⟩
    exact (congrArg value modTmp).trans dividend
  have upper := @modTmp_lt width (rSqrCall n) _ _ _ nonzero inv
  rw [modTmp] at upper
  constructor
  · intro gaps exponent positive
    by_cases left : exponent < (rSqrStart n).bigDivExp ∨ exponent = (rSqrStart n).bigDivExp ∧
        value (rSqrStart n).bigDiv ≤ value (rSqrStart n).modTmp
    · exact gaps exponent positive left
    · -- Above its top bit the quotient has none.
      intro set
      have small : capacity width (2 * n.length) < value n * 2 ^ exponent := by
        have divValue : value (rSqrStart n).bigDiv = value n * 2 ^ (rSqrStart n).bigDivExp :=
          inv.divValue
        by_cases same : exponent = (rSqrStart n).bigDivExp
        · rw [same, ← divValue, ← modTmp]
          by_contra fits
          exact left (.inr ⟨same, Nat.le_of_not_lt fits⟩)
        · have power : 2 ^ ((rSqrStart n).bigDivExp + 1) ≤ 2 ^ exponent :=
            Nat.pow_le_pow_right (by decide) (by omega)
          calc capacity width (2 * n.length)
              < value n * 2 ^ ((rSqrStart n).bigDivExp + 1) := by
                rw [pow_succ, ← mul_assoc, ← divValue]
                omega
            _ ≤ value n * 2 ^ exponent := Nat.mul_le_mul_left _ power
      rw [Nat.div_eq_of_lt small] at set
      cases set
  · intro gaps exponent positive _
    exact gaps exponent positive

def resultChecks (n : List (BitVec width)) (final : ModState width) : List Check :=
  [.assert (bigNumMostSignificantWord final.modTmp final.sigWordsModTmp + 1 ≤ n.length),
    (rSqrCall n).modPointer.words 0 n.length, Pointer.words ⟨.rSqrMod, 0⟩ 0 n.length]

theorem bigNumMod_rSqr (wide : 0 < width) (fits : (n.length + 1) * 2 < u16) (fuel : Nat) :
    bigNumMod fuel n ⟨.modulus, 0⟩ (rSqrNumber width n.length) ⟨.scratch, 0⟩
        ⟨.scratch, ocBnMontRsqrLen n.length⟩ ⟨.rSqrMod, 0⟩ =
      (modLoop (rSqrCall n) fuel (rSqrStart n)).map fun final =>
        (final.modTmp.take n.length, final.checks ++ resultChecks n final) := by
  obtain ⟨length, top, _, _⟩ := rSqrNumber_facts wide fits
  have rSqrLength : ocBnMontRsqrLen n.length = 2 * n.length + 2 := by
    rw [ocBnMontRsqrLen, Nat.mod_eq_of_lt fits]
    ring
  rw [bigNumMod, length, top, rSqrLength]
  rfl

/-- The call of `BigNumMod` ends with the remainder. -/
theorem rSqrMod_spec (bit : 1 < width) (fits : (n.length + 1) * 2 < u16) (some : n ≠ [])
    (used : TopWordUsed n) (nonzero : value n ≠ 0) {fuel : Nat}
    (enough : passesLeft (rSqrStart n) < fuel) :
    ∃ result checks, bigNumMod fuel n ⟨.modulus, 0⟩ (rSqrNumber width n.length) ⟨.scratch, 0⟩
        ⟨.scratch, ocBnMontRsqrLen n.length⟩ ⟨.rSqrMod, 0⟩ = Option.some (result, checks) ∧
      result.length = n.length ∧ value result = capacity width (2 * n.length) % value n ∧
      (Safe (montSizes n.length) checks ↔ GapsWithinWord n) := by
  have wide : 0 < width := by omega
  have positive : 0 < n.length := length_pos_iff.mpr some
  have room := rSqrRoom fits
  have inv := rSqrStart_inv wide fits some used
  obtain ⟨final, run, ended, safe⟩ := modLoop_spec bit nonzero room inv enough
  rw [rSqrStart_safe_iff wide fits some nonzero, rSqrStart_gaps wide fits some used nonzero,
    and_iff_right used] at safe
  have small : value final.modTmp < value n := by
    rw [ended.modValue]
    exact Nat.mod_lt _ (Nat.pos_of_ne_zero nonzero)
  have bound : value final.modTmp < capacity width n.length := small.trans (value_lt n)
  have short : n.length ≤ final.modTmp.length := by
    rw [ended.modLength]
    omega
  have lastWord := mostSignificantWord_lt ended.sigWords.1
    (by rw [ended.modLength]; exact ended.sigWords.2) positive bound
  refine ⟨final.modTmp.take n.length, final.checks ++ resultChecks n final, ?_, ?_, ?_, ?_⟩
  · rw [bigNumMod_rSqr wide fits, run]
    rfl
  · rw [length_take, min_eq_left short]
  · rw [(value_take_of_lt short bound).1, ended.modValue]
    rfl
  · rw [safe_append, safe]
    apply and_iff_left
    simp only [resultChecks, safe_cons, safe_nil, fits_assert, decide_eq_true_eq, and_true]
    have resultRoom : (0 : Nat) + n.length ≤ n.length := by omega
    exact ⟨lastWord, fits_words room.modTmp (by omega), fits_words resultRoom (by omega)⟩

end Division

theorem value_mod_two (wide : 0 < width) (n : List (BitVec width)) :
    value n % 2 = (n.headD 0).toNat % 2 := by
  cases n with
  | nil => simp
  | cons word rest =>
    obtain ⟨less, rfl⟩ : ∃ less, width = less + 1 := ⟨width - 1, by omega⟩
    rw [value_cons, headD_cons, pow_succ, mul_comm (2 ^ less), mul_assoc, Nat.add_mul_mod_self_left]

theorem montMaxLen_fits (size : WordSize) {numWords : Nat}
    (allowed : numWords ≤ ocBnMontMaxLen size.numBits) : (numWords + 1) * 2 < u16 := by
  cases size with
  | uint32 =>
    have bound : ocBnMontMaxLen WordSize.uint32.numBits = 8191 := by decide
    rw [u16_val]
    omega
  | uint64 =>
    have bound : ocBnMontMaxLen WordSize.uint64.numBits = 4095 := by decide
    rw [u16_val]
    omega

theorem wordSize_wide (size : WordSize) : 1 < size.numBits := by
  cases size with
  | uint32 => decide
  | uint64 => decide

theorem negInverse_ne_zero (size : WordSize) {word n0Inv : BitVec size.numBits}
    (product : n0Inv * word = -1) : n0Inv ≠ 0 := by
  rintro rfl
  have zero : (0 : BitVec size.numBits) * word = 0 := BitVec.zero_mul
  rw [zero] at product
  cases size with
  | uint32 => exact absurd product (by decide)
  | uint64 => exact absurd product (by decide)

theorem bigNumCalculateMontParams_odd (size : WordSize) {n : List (BitVec size.numBits)}
    (odd : value n % 2 = 1) {fuel : Nat} (enough : 2 ^ size.numBits < fuel) :
    ∃ n0Inv, n0Inv * n.headD 0 = -1 ∧ bigNumCalculateMontParams fuel n =
      (bigNumMod fuel n ⟨.modulus, 0⟩ (rSqrNumber size.numBits n.length) ⟨.scratch, 0⟩
        ⟨.scratch, ocBnMontRsqrLen n.length⟩ ⟨.rSqrMod, 0⟩).map fun (rSqrMod, checks) =>
          ⟨n0Inv, some rSqrMod, preparedChecks size.numBits n.length ++ checks⟩ := by
  have parity := value_mod_two (Nat.lt_of_succ_lt (wordSize_wide size)) n
  obtain ⟨n0Inv, inverse, oddInverse, _⟩ := @bigNumMontInverse_spec size.numBits n fuel enough
  have product := oddInverse (parity ▸ odd)
  refine ⟨n0Inv, product, ?_⟩
  have n0InvSome := negInverse_ne_zero size product
  rw [bigNumCalculateMontParams, inverse, Option.bind_some, if_neg n0InvSome]

/-- The parameters are found: the function ends with the word inverse and the square of
`R`, and refuses even numbers. -/
theorem bigNumCalculateMontParams_correct (size : WordSize) {n : List (BitVec size.numBits)}
    (allowed : n.length ≤ ocBnMontMaxLen size.numBits) :
    (value n % 2 = 1 → TopWordUsed n →
      ∃ enough, ∀ fuel ≥ enough, ∃ result,
        bigNumCalculateMontParams fuel n = some result ∧ result.n0Inv * n.headD 0 = -1 ∧
        ∃ rSqrMod, result.rSqrMod = some rSqrMod ∧ rSqrMod.length = n.length ∧
          value rSqrMod = 2 ^ (2 * size.numBits * n.length) % value n) ∧
    (value n % 2 = 0 →
      ∃ enough, ∀ fuel ≥ enough, ∃ result,
        bigNumCalculateMontParams fuel n = some result ∧ result.n0Inv = 0) := by
  have bit := wordSize_wide size
  have fits := montMaxLen_fits size allowed
  constructor
  · intro odd used
    have some : n ≠ [] := by
      rintro rfl
      cases odd
    have nonzero : value n ≠ 0 := by omega
    refine ⟨2 ^ size.numBits + passesLeft (rSqrStart n) + 1, ?_⟩
    intro fuel large
    obtain ⟨n0Inv, product, params⟩ := bigNumCalculateMontParams_odd size odd
      (show 2 ^ size.numBits < fuel by omega)
    obtain ⟨rSqrMod, checks, computed, length, remainder, _⟩ :=
      rSqrMod_spec bit fits some used nonzero
        (lt_of_lt_of_le (Nat.lt_succ_of_le (Nat.le_add_left _ _)) large)
    rw [computed] at params
    refine ⟨_, params, product, rSqrMod, rfl, length, ?_⟩
    rw [remainder, capacity_eq_two_pow]
    congr 2
    ring
  · intro even
    have parity := value_mod_two (Nat.lt_of_succ_lt bit) n
    refine ⟨2 ^ size.numBits + 1, ?_⟩
    intro fuel large
    obtain ⟨n0Inv, inverse, _, evenInverse⟩ :=
      @bigNumMontInverse_spec size.numBits n fuel (by omega)
    have zero := evenInverse (parity ▸ even)
    refine ⟨⟨0, none, enteredChecks size.numBits n.length⟩, ?_, rfl⟩
    rw [bigNumCalculateMontParams, inverse, Option.bind_some, if_pos zero]

/-- The modulus `2 ^ 32 - 5` in one word of 32 bits. -/
theorem bigNumCalculateMontParams_correct_small :
    ∃ enough, ∀ fuel ≥ enough, ∃ result,
      bigNumCalculateMontParams fuel [(4294967291 : BitVec WordSize.uint32.numBits)] = some result ∧
      result.n0Inv * 4294967291 = -1 ∧
      ∃ rSqrMod, result.rSqrMod = some rSqrMod ∧ rSqrMod.length = 1 ∧ value rSqrMod = 25 :=
  (bigNumCalculateMontParams_correct .uint32 (show 1 ≤ _ by decide)).1 (by decide)
    (show (4294967291 : BitVec 32) ≠ 0 by decide)

end OpenCore.MontgomeryParameters
