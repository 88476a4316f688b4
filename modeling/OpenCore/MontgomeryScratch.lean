import OpenCore.BigNumBuffer
import OpenCore.MontgomeryParameters

/-!
The memory `BigNumCalculateMontParams` is given by `RsaVerifySigDataFromData`: the modulus,
the square of `R` and the scratch memory. The buffer of the modulus is only checked for its
length.
-/

namespace OpenCore.MontgomeryScratch

open ByteBuffer BigEndian WordArray BigNumPrimitives ModDivision BigNumBuffer MontgomeryParameters

def ocBnMontMaxSize (size : WordSize) : Nat := ocBnMontMaxLen size.numBits * size.bytes

def ModulusSizeAccepted (size : WordSize) (modulusSize : Nat) : Prop :=
  ¬(modulusSize > ocBnMontMaxSize size ∨ modulusSize % size.bytes ≠ 0)

instance (size : WordSize) (modulusSize : Nat) : Decidable (ModulusSizeAccepted size modulusSize) :=
  inferInstanceAs (Decidable (¬_))

/-- The parameters are found, within their memory and with every assertion met. -/
def ParamsSafe {width : Nat} (n : List (BitVec width)) : Prop :=
  ∃ enough, ∀ fuel ≥ enough, ∃ result,
    bigNumCalculateMontParams fuel n = some result ∧ Safe (montSizes n.length) result.checks

section Params
variable (size : WordSize) {n : List (BitVec size.numBits)}

theorem accepted_words {modulus : Bytes} (accepted : ModulusSizeAccepted size modulus.length) :
    modulus.length = modulus.length / size.bytes * size.bytes ∧
      modulus.length / size.bytes ≤ ocBnMontMaxLen size.numBits := by
  have positive := wordSize_bytes_pos size
  rw [ModulusSizeAccepted, not_or, not_not, not_lt] at accepted
  constructor
  · exact (Nat.div_mul_cancel (Nat.dvd_of_mod_eq_zero accepted.2)).symm
  · exact Nat.div_le_of_le_mul (by rw [mul_comm]; exact accepted.1)

theorem preparedChecks_safe (positive : 0 < n.length)
    (allowed : n.length ≤ ocBnMontMaxLen size.numBits) :
    Safe (montSizes n.length) (preparedChecks size.numBits n.length) := by
  have fits := montMaxLen_fits size allowed
  have scratch := scratchWords_eq fits
  have rSqrLength : ocBnMontRsqrLen n.length = 2 * n.length + 2 := by
    rw [ocBnMontRsqrLen, Nat.mod_eq_of_lt fits]
    ring
  have index : 2 * (n.length * size.numBits) / size.numBits = 2 * n.length := by
    rw [← mul_assoc, Nat.mul_div_cancel _ (Nat.lt_of_succ_lt (wordSize_wide size))]
  have scratchRoom : (0 : Nat) + (6 * n.length + 6) ≤ montSizes n.length .scratch := by
    rw [montSizes, scratch, zero_add]
  have modulusRoom : (0 : Nat) + n.length ≤ montSizes n.length .modulus := by
    rw [montSizes, zero_add]
  simp only [preparedChecks, enteredChecks, safe_append, safe_cons, safe_nil, fits_assert,
    decide_eq_true_eq, and_true, rSqrLength, index]
  exact ⟨⟨positive, allowed, fits_words modulusRoom (by omega)⟩,
    fits_words scratchRoom (by omega), by omega, by omega, fits_words scratchRoom (by omega)⟩

theorem topWordUsed_of_paramsSafe (allowed : n.length ≤ ocBnMontMaxLen size.numBits)
    (odd : value n % 2 = 1) (safe : ParamsSafe n) : TopWordUsed n := by
  have wide := Nat.lt_of_succ_lt (wordSize_wide size)
  have fits := montMaxLen_fits size allowed
  have some : n ≠ [] := by
    rintro rfl
    cases odd
  obtain ⟨enough, ended⟩ := safe
  obtain ⟨result, run, clean⟩ := ended (enough + (2 ^ size.numBits + 1)) (Nat.le_add_right _ _)
  obtain ⟨n0Inv, _, params⟩ := bigNumCalculateMontParams_odd size odd
    (show 2 ^ size.numBits < enough + (2 ^ size.numBits + 1) from Nat.le_add_left _ _)
  rw [params, bigNumMod_rSqr wide fits, Option.map_map, Option.map_eq_some_iff] at run
  obtain ⟨final, loop, rfl⟩ := run
  obtain ⟨more, logged⟩ := extends_modLoop loop
  simp only [Function.comp_apply, safe_append, logged] at clean
  exact (rSqrStart_safe_iff wide fits some (by omega)).mp clean.2.1.1

theorem paramsSafe_iff_gaps (allowed : n.length ≤ ocBnMontMaxLen size.numBits)
    (odd : value n % 2 = 1) (used : TopWordUsed n) : ParamsSafe n ↔ GapsWithinWord n := by
  have bit := wordSize_wide size
  have fits := montMaxLen_fits size allowed
  have some : n ≠ [] := by
    rintro rfl
    cases odd
  have positive : 0 < n.length := List.length_pos_iff.mpr some
  -- Whatever the fuel, once it is enough the same log comes out.
  have outcome : ∀ fuel ≥ 2 ^ size.numBits + passesLeft (rSqrStart n) + 1, ∃ result,
      bigNumCalculateMontParams fuel n = Option.some result ∧
        (Safe (montSizes n.length) result.checks ↔ GapsWithinWord n) := by
    intro fuel large
    obtain ⟨n0Inv, _, params⟩ := bigNumCalculateMontParams_odd size odd
      (show 2 ^ size.numBits < fuel by omega)
    obtain ⟨rSqrMod, checks, computed, _, _, safe⟩ := rSqrMod_spec bit fits some used (by omega)
        (lt_of_lt_of_le (Nat.lt_succ_of_le (Nat.le_add_left _ _)) large)
    rw [computed] at params
    refine ⟨_, params, ?_⟩
    simp only [safe_append, safe]
    exact and_iff_right (preparedChecks_safe size positive allowed)
  constructor
  · rintro ⟨enough, ended⟩
    obtain ⟨result, run, gaps⟩ := outcome
      (enough + (2 ^ size.numBits + passesLeft (rSqrStart n) + 1)) (Nat.le_add_left _ _)
    obtain ⟨same, run', safe⟩ := ended
      (enough + (2 ^ size.numBits + passesLeft (rSqrStart n) + 1)) (Nat.le_add_right _ _)
    rw [run] at run'
    cases run'
    exact gaps.mp safe
  · intro gaps
    refine ⟨2 ^ size.numBits + passesLeft (rSqrStart n) + 1, ?_⟩
    intro fuel large
    obtain ⟨result, run, safe⟩ := outcome fuel large
    exact ⟨result, run, safe.mpr gaps⟩

end Params

/-- Which moduli the parameters are computed safely for. -/
theorem modulus_params_safe_iff (size : WordSize) (modulus : Bytes)
    (accepted : ModulusSizeAccepted size modulus.length) (odd : bigEndian modulus % 2 = 1) :
    ParamsSafe (bigNumParseBuffer size modulus) ↔
      TopWordUsed (bigNumParseBuffer size modulus) ∧
        GapsWithinWord (bigNumParseBuffer size modulus) := by
  obtain ⟨whole, allowed⟩ := accepted_words size accepted
  rw [← bigNumParseBuffer_length] at allowed
  rw [← bigNumParseBuffer_value size whole] at odd
  constructor
  · intro safe
    have used := topWordUsed_of_paramsSafe size allowed odd safe
    exact ⟨used, (paramsSafe_iff_gaps size allowed odd used).mp safe⟩
  · rintro ⟨used, gaps⟩
    exact (paramsSafe_iff_gaps size allowed odd used).mpr gaps

/-- The modulus `2 ^ 32 - 5` in one word of 32 bits. -/
theorem modulus_params_safe_small :
    ParamsSafe (bigNumParseBuffer .uint32 [0xFF, 0xFF, 0xFF, 0xFB]) := by
  refine (modulus_params_safe_iff .uint32 [0xFF, 0xFF, 0xFF, 0xFB] (by decide) (by decide)).mpr
    ⟨show (4294967291 : BitVec 32) ≠ 0 by decide, ?_⟩
  intro exponent positive
  show GapWithinWord 32 4294967291 (2 ^ 64) exponent
  intro set
  by_cases small : exponent < 33
  · have checked : ∀ exponent < 33,
        2 ^ 64 / (4294967291 * 2 ^ exponent) % 2 = 1 →
          Nat.size 4294967291 ≤ Nat.size (2 ^ 64 % (4294967291 * 2 ^ exponent)) →
            Nat.size 4294967291 + exponent <
              Nat.size (2 ^ 64 % (4294967291 * 2 ^ exponent)) + 32 := by
      decide
    exact checked exponent small set
  · -- Above the top bit of the quotient nothing is subtracted.
    have large : 2 ^ 33 ≤ 2 ^ exponent := Nat.pow_le_pow_right (by decide) (by omega)
    have zero : 2 ^ 64 / (4294967291 * 2 ^ exponent) = 0 := Nat.div_eq_of_lt (by omega)
    rw [zero] at set
    cases set

/-- A modulus of 16 bytes, the first eight of them zero, on a machine of 64 bits. -/
theorem modulus_leading_zero_unsafe :
    let modulus : Bytes := List.replicate 8 0 ++ List.replicate 8 0xFF
    ModulusSizeAccepted .uint64 modulus.length ∧ bigEndian modulus % 2 = 1 ∧
      ¬ParamsSafe (bigNumParseBuffer .uint64 modulus) := by
  refine ⟨by decide, by decide, ?_⟩
  intro safe
  have used := topWordUsed_of_paramsSafe .uint64 (show 2 ≤ _ by decide) (by decide) safe
  exact absurd used (show ¬((0 : BitVec 64) ≠ 0) by decide)

end OpenCore.MontgomeryScratch
