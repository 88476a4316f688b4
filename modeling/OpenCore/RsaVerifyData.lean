import OpenCore.MontgomeryScratch
import OpenCore.RsaDigitalSign

/-!
A signature is checked with nothing but the bytes of the modulus: the Montgomery parameters
are computed from them first.
-/

namespace OpenCore.RsaVerifyData

open ByteBuffer BigEndian WordArray BigNumPrimitives BigNumBuffer ModDivision
  MontgomeryParameters MontgomeryPower MontgomeryScratch RsaDigitalSign List

/-- No result means that the fuel of the two divisions is used up. -/
def rsaVerifySigDataFromData (size : WordSize) (pcd : CryptoPcd)
    (sha : SigHashType → Bytes → Bytes) (fuel : Nat) (modulus : Bytes) (exponent : Nat)
    (signature data : Bytes) (algorithm : SigHashType) : Option Bool :=
  if modulus.length > ocBnMontMaxSize size ∨ modulus.length % size.bytes ≠ 0 then some false
  else
    let n := bigNumParseBuffer size modulus
    (bigNumCalculateMontParams fuel n).map fun params =>
      if params.n0Inv = 0 then false
      else rsaVerifySigHashFromProcessed size pcd n (modulus.length / size.bytes) params.n0Inv
        (params.rSqrMod.getD []) exponent signature (sha algorithm data) algorithm

/-- With an odd modulus whose top bit is set, the check ends, and accepts what decrypts to
the encoding of the digest of the data. -/
theorem rsaVerifySigDataFromData_iff (size : WordSize) (pcd : CryptoPcd)
    (sha : SigHashType → Bytes → Bytes) {modulus : Bytes}
    (accepted : ModulusSizeAccepted size modulus.length) (odd : bigEndian modulus % 2 = 1)
    (topBit : 256 ^ modulus.length ≤ 2 * bigEndian modulus) (signature data : Bytes)
    (algorithm : SigHashType) :
    ∃ enough, ∀ fuel ≥ enough, ∃ verified,
      rsaVerifySigDataFromData size pcd sha fuel modulus 0x10001 signature data algorithm =
        some verified ∧ (verified = true ↔ internalSigHashTypeIsAllowed pcd algorithm = true ∧
        internalRsaModulusSizeIsAllowed pcd modulus.length = true ∧
        signature.length = modulus.length ∧ Encodes (toBigEndian modulus.length
          (bigEndian signature ^ 0x10001 % bigEndian modulus))
          (pkcsDigestEncodingPrefix algorithm) (sha algorithm data)) := by
  obtain ⟨whole, allowed⟩ := accepted_words size accepted
  have parsed := bigNumParseBuffer_value size whole
  have length := bigNumParseBuffer_length size modulus
  generalize words : bigNumParseBuffer size modulus = n at parsed length
  rw [← parsed] at odd topBit
  rw [← length] at allowed whole
  have full : capacity size.numBits n.length = 256 ^ modulus.length := by
    rw [whole, capacity, word_base, ← Nat.pow_mul, mul_comm]
  rw [← full] at topBit
  have bit := wordSize_wide size
  have some : n ≠ [] := by
    rintro rfl
    cases odd
  have positive := length_pos_iff.mpr some
  have used : TopWordUsed n := by
    have below : 2 ^ (size.numBits * (n.length - 1) + 1) ≤ capacity size.numBits n.length := by
      rw [capacity_eq_two_pow, ← Nat.sub_add_cancel positive, Nat.add_sub_cancel, Nat.mul_succ]
      exact Nat.pow_le_pow_right Nat.zero_lt_two (by omega)
    rw [topWordUsed_iff some, Nat.lt_size]
    omega
  refine ⟨max (2 ^ size.numBits + 1) (passesLeft (rSqrStart n) + 1), fun fuel large => ?_⟩
  obtain ⟨n0Inv, product, params⟩ :=
    bigNumCalculateMontParams_odd size odd (le_of_max_le_left large)
  obtain ⟨rSqrMod, checks, computed, rSqrLength, remainder, _⟩ :=
    rSqrMod_spec bit (montMaxLen_fits size allowed) some used (by omega)
      (le_of_max_le_right large)
  rw [computed] at params
  have square : value rSqrMod = capacity size.numBits n.length ^ 2 % value n := by
    rw [remainder, capacity, capacity, mul_comm 2, Nat.pow_mul]
  have processed := @rsaVerifySigHashFromProcessed_iff size pcd _
    ⟨n, n0Inv, rSqrMod, rfl, rSqrLength, odd, product, square⟩ topBit n rSqrMod
    (take_of_length_le (le_refl _)) (take_of_length_le rSqrLength.le) signature
    (sha algorithm data) algorithm
  rw [and_iff_right (allowed.trans ((Nat.sub_le _ _).trans (Nat.div_le_self _ _))), ← whole,
    parsed] at processed
  refine ⟨_, ?_, processed⟩
  rw [rsaVerifySigDataFromData, if_neg accepted, words, ← length]
  simp only [params, Option.map_some, if_neg (negInverse_ne_zero size product), Option.getD_some]

def sampleDigest : Bytes := replicate 30 0 ++ [0x63, 0xE4]

def sampleEncoding : Bytes :=
  [0x00, 0x01] ++ replicate 202 0xFF ++ [0x00] ++ pkcsDigestEncodingPrefix .sha256 ++ sampleDigest

/-- A modulus of 2048 bits that divides the encoding squared less one, so that the encoding is
a signature of itself. -/
def sampleModulus : Nat := (bigEndian sampleEncoding + 1) * 16385

set_option maxRecDepth 4000

theorem sampleEncoding_squared : bigEndian sampleEncoding ^ 2 % sampleModulus = 1 := by
  decide

theorem sampleModulus_fits : sampleModulus < 256 ^ 256 ∧ sampleModulus % 2 = 1 ∧
    256 ^ 256 ≤ 2 * sampleModulus ∧ bigEndian sampleEncoding < sampleModulus := by
  decide

theorem power_of_squared {number modulus exponent : Nat} (squared : number ^ 2 % modulus = 1)
    (small : number < modulus) (odd : exponent = 2 * (exponent / 2) + 1) :
    number ^ exponent % modulus = number := by
  have one : 1 % modulus = 1 := by rw [← squared, Nat.mod_mod]
  rw [odd, pow_succ, pow_mul, Nat.mul_mod, Nat.pow_mod, squared, one_pow, one, one_mul, Nat.mod_mod,
    Nat.mod_eq_of_lt small]

theorem sampleEncoding_length : sampleEncoding.length = 256 := by
  rw [sampleEncoding, sampleDigest]
  simp only [length_append, length_replicate]
  decide

/-- A signature that is accepted. -/
theorem rsaVerifySigDataFromData_encoding :
    ∃ enough, ∀ fuel ≥ enough, rsaVerifySigDataFromData .uint64 {} (fun _ data => data) fuel
      (toBigEndian 256 sampleModulus) 0x10001 sampleEncoding sampleDigest .sha256 = some true := by
  obtain ⟨fits, odd, topBit, small⟩ := sampleModulus_fits
  have same := bigEndian_toBigEndian fits
  have length := length_toBigEndian 256 sampleModulus
  have power := power_of_squared sampleEncoding_squared small (by decide : 0x10001 = _)
  generalize sampleModulus = number at fits odd topBit same length power
  obtain ⟨enough, checked⟩ := @rsaVerifySigDataFromData_iff .uint64 {} (fun _ data => data)
    (toBigEndian 256 number) (by rw [length]; decide) (by rw [same, odd])
    (by rwa [length, same]) sampleEncoding sampleDigest .sha256
  refine ⟨enough, fun fuel large => ?_⟩
  obtain ⟨verified, computed, accepts⟩ := checked fuel large
  rw [length, same] at accepts
  have encodes : Encodes (toBigEndian 256 (bigEndian sampleEncoding ^ 0x10001 % number))
      (pkcsDigestEncodingPrefix .sha256) sampleDigest := by
    refine ⟨202, by decide, toBigEndian_eq ?_ sampleEncoding_length⟩
    rw [power, sampleEncoding]
  rw [computed, accepts.mpr ⟨by decide, by decide, sampleEncoding_length, encodes⟩]

end OpenCore.RsaVerifyData
