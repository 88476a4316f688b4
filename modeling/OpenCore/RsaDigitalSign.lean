import OpenCore.BigNumBuffer
import OpenCore.MontgomeryParameters
import OpenCore.MontgomeryPower

/-!
The signature check of `RsaDigitalSign.c`. A public key holds its modulus and the square of
`R` as 64-bit values; a machine with smaller words reads the same memory as twice as many
words and counts them in 16 bits.
-/

namespace OpenCore.RsaDigitalSign

open Base ByteBuffer BigEndian WordArray BigNumPrimitives BigNumMontgomery BigNumBuffer
  MontgomeryParameters MontgomeryPower List

inductive SigHashType where
  | sha256
  | sha384
  | sha512
  deriving DecidableEq

def SigHashType.index : SigHashType → Nat
  | .sha256 => 0
  | .sha384 => 1
  | .sha512 => 2

def pkcsDigestEncodingPrefix : SigHashType → Bytes
  | .sha256 =>
    [0x30, 0x31, 0x30, 0x0d, 0x06, 0x09, 0x60, 0x86, 0x48, 0x01, 0x65, 0x03, 0x04, 0x02, 0x01,
      0x05, 0x00, 0x04, 0x20]
  | .sha384 =>
    [0x30, 0x41, 0x30, 0x0d, 0x06, 0x09, 0x60, 0x86, 0x48, 0x01, 0x65, 0x03, 0x04, 0x02, 0x02,
      0x05, 0x00, 0x04, 0x30]
  | .sha512 =>
    [0x30, 0x51, 0x30, 0x0d, 0x06, 0x09, 0x60, 0x86, 0x48, 0x01, 0x65, 0x03, 0x04, 0x02, 0x03,
      0x05, 0x00, 0x04, 0x40]

structure CryptoPcd where
  allowedRsaModuli : BitVec 16 := 0x300
  allowedSigHashTypes : BitVec 16 := 0x07

def internalRsaModulusSizeIsAllowed (pcd : CryptoPcd) (modulusSize : Nat) : Bool :=
  if modulusSize &&& (modulusSize - 1) ≠ 0 then false
  else pcd.allowedRsaModuli.toNat &&& modulusSize ≠ 0

def internalSigHashTypeIsAllowed (pcd : CryptoPcd) (type : SigHashType) : Bool :=
  pcd.allowedSigHashTypes.toNat &&& 1 <<< type.index ≠ 0

def fillerMatches (message : Bytes) : Nat → Nat → Bool
  | 0, _ => true
  | left + 1, index =>
    if message.getD index 0 ≠ 0xFF then false else fillerMatches message left (index + 1)

def messageMatches (message padding hash : Bytes) : Bool :=
  let digestSize := padding.length + hash.length
  if message.length < digestSize + 11 then false
  else if message.getD 0 0 ≠ 0x00 ∨ message.getD 1 0 ≠ 0x01 then false
  else if ¬fillerMatches message (message.length - digestSize - 3) 2 then false
  else
    let index := message.length - digestSize - 3 + 2
    if message.getD index 0 ≠ 0x00 then false
    else if (message.drop (index + 1)).take padding.length ≠ padding then false
    else (message.drop (index + 1 + padding.length)).take hash.length = hash

/-- `RsaVerifySigHashFromProcessed`. The numbers are pointers to at least `numWords` words. -/
def rsaVerifySigHashFromProcessed (size : WordSize) (pcd : CryptoPcd)
    (n : List (BitVec size.numBits)) (numWords : Nat) (n0Inv : BitVec size.numBits)
    (rSqrMod : List (BitVec size.numBits)) (exponent : Nat) (signature hash : Bytes)
    (algorithm : SigHashType) : Bool :=
  if numWords > ocBnMaxLen size.numBits then false
  else if ¬internalSigHashTypeIsAllowed pcd algorithm then false
  else
    let modulusSize := numWords * size.bytes
    if ¬internalRsaModulusSizeIsAllowed pcd modulusSize then false
    else if signature.length ≠ modulusSize then false
    else
      match bigNumPowMod (bigNumParseBuffer size signature) exponent (n.take numWords) n0Inv
          (rSqrMod.take numWords) with
      | none => false
      | some decrypted =>
        messageMatches (swappedMessage size decrypted) (pkcsDigestEncodingPrefix algorithm) hash

structure RsaPublicKey where
  numQwords : Nat
  n0Inv : BitVec 64
  data : List (BitVec 64)
  numQwords_lt : numQwords < u16
  data_length : data.length = 2 * numQwords

namespace RsaPublicKey

def n (key : RsaPublicKey) : List (BitVec 64) := key.data.take key.numQwords

def rSqrMod (key : RsaPublicKey) : List (BitVec 64) := key.data.drop key.numQwords

structure Valid (key : RsaPublicKey) : Prop where
  odd : value key.n % 2 = 1
  topBit : capacity 64 key.numQwords ≤ 2 * value key.n
  inverse : key.n0Inv * key.n.headD 0 = -1
  rSqr : value key.rSqrMod = capacity 64 key.numQwords ^ 2 % value key.n

end RsaPublicKey

def splitQword (qword : BitVec 64) : List (BitVec 32) :=
  [qword.setWidth 32, (qword >>> 32).setWidth 32]

def qwordWords : (size : WordSize) → List (BitVec 64) → List (BitVec size.numBits)
  | .uint32, data => (data.flatMap splitQword : List (BitVec 32))
  | .uint64, data => data

def keyNumWords (size : WordSize) (key : RsaPublicKey) : Nat :=
  key.numQwords * (8 / size.bytes) % u16

def rsaVerifySigHashFromKey (size : WordSize) (pcd : CryptoPcd) (key : RsaPublicKey)
    (signature hash : Bytes) (algorithm : SigHashType) : Bool :=
  rsaVerifySigHashFromProcessed size pcd (qwordWords size key.data) (keyNumWords size key)
    (key.n0Inv.setWidth size.numBits) (qwordWords size (key.data.drop key.numQwords)) 0x10001
    signature hash algorithm

def Encodes (message padding hash : Bytes) : Prop :=
  ∃ count, 8 ≤ count ∧
    message = [0x00, 0x01] ++ replicate count 0xFF ++ [0x00] ++ padding ++ hash

section Message
variable {message padding hash : Bytes}

theorem fillerMatches_iff {left index : Nat} (inside : index + left ≤ message.length) :
    fillerMatches message left index = true ↔
      (message.drop index).take left = replicate left 0xFF := by
  induction left generalizing index with
  | zero => simp [fillerMatches]
  | succ left ih =>
    have here : index < message.length := by omega
    rw [fillerMatches, drop_eq_getElem_cons here, take_succ_cons, replicate_succ,
      getD_eq_getElem _ _ here, List.cons.injEq, ← ih (show index + 1 + left ≤ _ by omega)]
    by_cases filler : message[index] = 0xFF
    · simp [filler]
    · simp [filler]

theorem split_message {filler : Nat}
    (length : message.length = 2 + filler + 1 + padding.length + hash.length) :
    ∃ first second fillers zero found digest,
      message = first :: second :: (fillers ++ zero :: (found ++ digest)) ∧
        fillers.length = filler ∧ found.length = padding.length ∧ digest.length = hash.length := by
  match message, length with
  | [], length =>
    simp only [length_nil] at length
    omega
  | [_], length =>
    simp only [length_singleton] at length
    omega
  | first :: second :: rest, length =>
    simp only [length_cons] at length
    have middle : filler < rest.length := by omega
    refine ⟨first, second, rest.take filler, rest[filler],
      (rest.drop (filler + 1)).take padding.length,
      (rest.drop (filler + 1)).drop padding.length, ?_, ?_, ?_, ?_⟩
    · rw [take_append_drop, ← drop_eq_getElem_cons middle, take_append_drop]
    · rw [length_take]
      omega
    · rw [length_take, length_drop]
      omega
    · rw [length_drop, length_drop]
      omega

theorem encodes_iff {first second zero : UInt8} {fillers found digest : Bytes} {filler : Nat}
    (many : 8 ≤ filler) (fillersLength : fillers.length = filler)
    (foundLength : found.length = padding.length) (digestLength : digest.length = hash.length) :
    Encodes (first :: second :: (fillers ++ zero :: (found ++ digest))) padding hash ↔
      first = 0x00 ∧ second = 0x01 ∧ fillers = replicate filler 0xFF ∧ zero = 0x00 ∧
        found = padding ∧ digest = hash := by
  constructor
  · rintro ⟨count, _, same⟩
    have lengths := congrArg List.length same
    simp only [length_append, length_cons, length_nil, length_replicate] at lengths
    obtain rfl : count = filler := by omega
    simp only [cons_append, nil_append, append_assoc, List.cons.injEq] at same
    obtain ⟨one, two, rest⟩ := same
    obtain ⟨filled, rest⟩ := append_inj rest (by rw [fillersLength, length_replicate])
    rw [List.cons.injEq] at rest
    obtain ⟨closed, rest⟩ := rest
    obtain ⟨found, digest⟩ := append_inj rest foundLength
    exact ⟨one, two, filled, closed, found, digest⟩
  · rintro ⟨rfl, rfl, rfl, rfl, rfl, rfl⟩
    exact ⟨filler, many, by simp⟩

theorem messageMatches_iff : messageMatches message padding hash = true ↔
    Encodes message padding hash := by
  by_cases short : message.length < padding.length + hash.length + 11
  · simp only [messageMatches, short, ↓reduceIte, Bool.false_eq_true, false_iff]
    rintro ⟨count, enough, rfl⟩
    simp at short
    omega
  · obtain ⟨filler, fillerEq⟩ :
        ∃ filler, message.length = 2 + filler + 1 + padding.length + hash.length :=
      ⟨message.length - (padding.length + hash.length) - 3, by omega⟩
    have left : message.length - (padding.length + hash.length) - 3 = filler := by omega
    have many : 8 ≤ filler := by omega
    have checked := @fillerMatches_iff message filler 2 (by omega)
    simp only [messageMatches, short, ↓reduceIte, left]
    obtain ⟨first, second, fillers, zero, found, digest, rfl, fillersLength, foundLength,
      digestLength⟩ := split_message fillerEq
    have fillersPart : ((first :: second :: (fillers ++ zero :: (found ++ digest))).drop 2).take
        filler = fillers := by
      rw [← fillersLength]
      exact take_left
    have rest : (first :: second :: (fillers ++ zero :: (found ++ digest))).drop (filler + 2 + 1) =
        found ++ digest := by
      rw [← fillersLength]
      simp
    have middle : (first :: second :: (fillers ++ zero :: (found ++ digest))).getD (filler + 2) 0 =
        zero := by
      rw [← fillersLength]
      simp [List.getD]
    have foundPart : (found ++ digest).take padding.length = found := by
      rw [← foundLength, take_left]
    have digestPart : ((first :: second :: (fillers ++ zero :: (found ++ digest))).drop
        (filler + 2 + 1 + padding.length)).take hash.length = digest := by
      rw [← drop_drop, rest, ← foundLength, drop_left, ← digestLength, take_length]
    rw [fillersPart] at checked
    rw [rest, middle, foundPart, digestPart, encodes_iff many fillersLength foundLength digestLength]
    simp only [getD_cons_zero, getD_cons_succ, ne_eq, checked]
    by_cases opened : first = 0 ∧ second = 1
    · by_cases filled : fillers = replicate filler 0xFF
      · by_cases closed : zero = 0
        · by_cases same : found = padding
          · simp [opened, filled, closed, same]
          · simp [opened, filled, closed, same]
        · simp [opened, filled, closed]
      · simp [opened, filled]
    · have different : ¬first = 0 ∨ ¬second = 1 := by
        rwa [← not_and_or]
      rw [if_pos different]
      simp only [Bool.false_eq_true, false_iff]
      rintro ⟨one, two, _⟩
      exact opened ⟨one, two⟩

end Message

section Words

theorem qwordWords_append (size : WordSize) (low high : List (BitVec 64)) :
    qwordWords size (low ++ high) = qwordWords size low ++ qwordWords size high := by
  cases size with
  | uint32 => exact flatMap_append
  | uint64 => rfl

theorem qwordWords_length (size : WordSize) (data : List (BitVec 64)) :
    (qwordWords size data).length = data.length * (8 / size.bytes) := by
  cases size with
  | uint32 =>
    show (data.flatMap splitQword).length = data.length * 2
    induction data with
    | nil => rfl
    | cons qword rest ih =>
      rw [flatMap_cons, length_append, ih, length_cons, Nat.succ_mul]
      exact add_comm 2 _
  | uint64 => exact (mul_one _).symm

theorem splitQword_value (qword : BitVec 64) : value (splitQword qword) = qword.toNat := by
  have bound := qword.isLt
  simp only [splitQword, value_cons, value_nil, BitVec.toNat_setWidth, BitVec.toNat_ushiftRight,
    Nat.shiftRight_eq_div_pow]
  omega

theorem qwordWords_value (size : WordSize) (data : List (BitVec 64)) :
    value (qwordWords size data) = value data := by
  cases size with
  | uint32 =>
    show value (data.flatMap splitQword) = value data
    induction data with
    | nil => rfl
    | cons qword rest ih =>
      have base : capacity 32 (splitQword qword).length = 2 ^ 64 := (Nat.pow_mul 2 32 2).symm
      rw [flatMap_cons, value_append, ih, splitQword_value, value_cons, base]
  | uint64 => rfl

theorem capacity_qwords (size : WordSize) (count : Nat) :
    capacity size.numBits (count * (8 / size.bytes)) = capacity 64 count := by
  rw [capacity_eq_two_pow, capacity_eq_two_pow]
  congr 1
  cases size with
  | uint32 => show 32 * (count * 2) = 64 * count; omega
  | uint64 => show 64 * (count * 1) = 64 * count; omega

theorem qwordWords_inverse (size : WordSize) {n0Inv : BitVec 64} {n : List (BitVec 64)}
    (inverse : n0Inv * n.headD 0 = -1) :
    n0Inv.setWidth size.numBits * (qwordWords size n).headD 0 = -1 := by
  cases n with
  | nil => exact absurd inverse (by simp)
  | cons qword rest =>
    have cut := congrArg (BitVec.setWidth size.numBits) inverse
    rw [headD_cons, BitVec.setWidth_mul _ _ (by cases size <;> decide)] at cut
    cases size with
    | uint32 => exact cut
    | uint64 =>
      show n0Inv.setWidth 64 * qword = -1
      rw [BitVec.setWidth_eq]
      exact inverse

def qwordParams (size : WordSize) {count : Nat} (params : MontParams 64 count) :
    MontParams size.numBits (count * (8 / size.bytes)) where
  n := qwordWords size params.n
  n0Inv := params.n0Inv.setWidth size.numBits
  rSqrMod := qwordWords size params.rSqrMod
  n_length := by rw [qwordWords_length, params.n_length]
  rSqrMod_length := by rw [qwordWords_length, params.rSqrMod_length]
  odd := by rw [qwordWords_value]; exact params.odd
  inverse := qwordWords_inverse size params.inverse
  rSqr := by rw [qwordWords_value, qwordWords_value, capacity_qwords]; exact params.rSqr

end Words

section Processed
variable {size : WordSize} {pcd : CryptoPcd}

theorem rsaVerifySigHashFromProcessed_iff {numWords : Nat} (params : MontParams size.numBits numWords)
    (topBit : capacity size.numBits numWords ≤ 2 * value params.n)
    {n rSqrMod : List (BitVec size.numBits)} (nWords : n.take numWords = params.n)
    (rSqrWords : rSqrMod.take numWords = params.rSqrMod) {signature hash : Bytes}
    {algorithm : SigHashType} :
    rsaVerifySigHashFromProcessed size pcd n numWords params.n0Inv rSqrMod 0x10001 signature hash
        algorithm = true ↔
      numWords ≤ ocBnMaxLen size.numBits ∧ internalSigHashTypeIsAllowed pcd algorithm = true ∧
        internalRsaModulusSizeIsAllowed pcd (numWords * size.bytes) = true ∧
        signature.length = numWords * size.bytes ∧ Encodes (toBigEndian (numWords * size.bytes)
          (bigEndian signature ^ 0x10001 % value params.n))
          (pkcsDigestEncodingPrefix algorithm) hash := by
  simp only [rsaVerifySigHashFromProcessed, nWords, rSqrWords]
  by_cases long : numWords > ocBnMaxLen size.numBits
  · simp only [long, ↓reduceIte, Bool.false_eq_true, false_iff]
    rintro ⟨short, _⟩
    omega
  · rw [if_neg long, and_iff_right (Nat.le_of_not_lt long)]
    by_cases type : internalSigHashTypeIsAllowed pcd algorithm = true
    · by_cases modulus : internalRsaModulusSizeIsAllowed pcd (numWords * size.bytes) = true
      · by_cases same : signature.length = numWords * size.bytes
        · have words : (bigNumParseBuffer size signature).length = numWords := by
            rw [bigNumParseBuffer_length, same, Nat.mul_div_cancel _ (wordSize_bytes_pos size)]
          obtain ⟨result, power, length, number⟩ := bigNumPowMod_65537 params words (Or.inr topBit)
          rw [bigNumParseBuffer_value size same] at number
          simp only [type, modulus, same, not_true_eq_false, ↓reduceIte, ne_eq, power,
            messageMatches_iff, swappedMessage_spec, length, number, true_and]
        · simp [type, modulus, same]
      · simp [type, modulus]
    · simp [type]

end Processed

section Key
variable (size : WordSize) (pcd : CryptoPcd) (key : RsaPublicKey)
variable {algorithm : SigHashType}

/-- The signature is as long as the modulus, which is of an allowed length, and decrypts
to the encoding of the digest. -/
def SignatureMatches (signature hash : Bytes) (algorithm : SigHashType) : Prop :=
  internalRsaModulusSizeIsAllowed pcd (8 * key.numQwords) = true ∧
    signature.length = 8 * key.numQwords ∧
    Encodes (toBigEndian (8 * key.numQwords) (bigEndian signature ^ 0x10001 % value key.n))
      (pkcsDigestEncodingPrefix algorithm) hash

/-- The key has too many words of 32 bits to count them, and what is left of their number
is the length of an allowed modulus. -/
def LengthWraps : Prop :=
  size = .uint32 ∧ 0x8000 ≤ key.numQwords ∧
    internalRsaModulusSizeIsAllowed pcd (8 * (key.numQwords - 0x8000)) = true

variable {size pcd key}

theorem modulusSize_lt {modulusSize : Nat}
    (allowed : internalRsaModulusSizeIsAllowed pcd modulusSize = true) : modulusSize < u16 := by
  unfold internalRsaModulusSizeIsAllowed at allowed
  split at allowed
  · cases allowed
  · rename_i power
    have bit : pcd.allowedRsaModuli.toNat &&& modulusSize ≠ 0 := by simpa using allowed
    have some : modulusSize ≠ 0 := by
      rintro rfl
      simp at bit
    obtain ⟨exponent, rfl⟩ := (Nat.and_sub_one_eq_zero_iff_isPowerOfTwo some).mp (not_not.mp power)
    rw [Nat.and_two_pow] at bit
    have set : pcd.allowedRsaModuli.toNat.testBit exponent = true := by
      by_contra clear
      simp [clear] at bit
    exact lt_of_le_of_lt (Nat.ge_two_pow_of_testBit set) pcd.allowedRsaModuli.isLt

theorem allowed_of_verified {n rSqrMod : List (BitVec size.numBits)} {numWords exponent : Nat}
    {n0Inv : BitVec size.numBits} {signature hash : Bytes}
    (verified : rsaVerifySigHashFromProcessed size pcd n numWords n0Inv rSqrMod exponent signature
      hash algorithm = true) :
    internalRsaModulusSizeIsAllowed pcd (numWords * size.bytes) = true := by
  by_contra refused
  unfold rsaVerifySigHashFromProcessed at verified
  simp [refused] at verified

def RsaPublicKey.Valid.params (valid : key.Valid) : MontParams 64 key.numQwords where
  n := key.n
  n0Inv := key.n0Inv
  rSqrMod := key.rSqrMod
  n_length := by
    rw [RsaPublicKey.n, length_take, key.data_length]
    omega
  rSqrMod_length := by
    rw [RsaPublicKey.rSqrMod, length_drop, key.data_length]
    omega
  odd := valid.odd
  inverse := valid.inverse
  rSqr := valid.rSqr

theorem qwords_bytes (count : Nat) : count * (8 / size.bytes) * size.bytes = 8 * count := by
  cases size with
  | uint32 => show count * 2 * 4 = 8 * count; omega
  | uint64 => show count * 1 * 8 = 8 * count; omega

theorem numWords_le_ocBnMaxLen {numWords : Nat} (bytes : numWords * size.bytes < u16) :
    numWords ≤ ocBnMaxLen size.numBits := by
  rw [u16_val] at bytes
  cases size with
  | uint32 =>
    have words : numWords * 4 < 65536 := bytes
    show numWords ≤ 16384
    omega
  | uint64 =>
    have words : numWords * 8 < 65536 := bytes
    show numWords ≤ 8192
    omega

theorem rsaVerifySigHashFromKey_counted (valid : key.Valid)
    (counted : key.numQwords * (8 / size.bytes) < u16) {signature hash : Bytes}
    (allowed : internalSigHashTypeIsAllowed pcd algorithm = true) :
    rsaVerifySigHashFromKey size pcd key signature hash algorithm = true ↔
      SignatureMatches pcd key signature hash algorithm := by
  have dataWords : (qwordWords size key.data).take (key.numQwords * (8 / size.bytes)) =
      qwordWords size key.n := by
    have split := qwordWords_append size key.n key.rSqrMod
    rw [RsaPublicKey.n, RsaPublicKey.rSqrMod, take_append_drop] at split
    rw [split, ← RsaPublicKey.n, ← valid.params.n_length, ← qwordWords_length]
    exact take_left
  have rSqrWords : (qwordWords size (key.data.drop key.numQwords)).take
      (key.numQwords * (8 / size.bytes)) = qwordWords size key.rSqrMod := by
    apply take_of_length_le
    rw [qwordWords_length]
    exact le_of_eq (congrArg (· * (8 / size.bytes)) valid.params.rSqrMod_length)
  have topBit : capacity size.numBits (key.numQwords * (8 / size.bytes)) ≤
      2 * value (qwordParams size valid.params).n := by
    rw [capacity_qwords]
    exact le_trans valid.topBit (le_of_eq (congrArg (2 * ·) (qwordWords_value size key.n).symm))
  have processed := @rsaVerifySigHashFromProcessed_iff size pcd _ (qwordParams size valid.params)
    topBit _ _ dataWords rSqrWords signature hash algorithm
  rw [rsaVerifySigHashFromKey, keyNumWords, Nat.mod_eq_of_lt counted]
  refine processed.trans ?_
  have modulus : value (qwordParams size valid.params).n = value key.n :=
    qwordWords_value size key.n
  rw [qwords_bytes, modulus, SignatureMatches, and_iff_right allowed]
  constructor
  · rintro ⟨_, matched⟩
    exact matched
  · intro matched
    have bytes : key.numQwords * (8 / size.bytes) * size.bytes < u16 := by
      rw [qwords_bytes]
      exact modulusSize_lt matched.1
    exact ⟨numWords_le_ocBnMaxLen bytes, matched⟩

end Key

/-- Signatures are accepted exactly if they match, as long as the length of the key does not
wrap to another allowed one. -/
theorem rsaVerifySigHashFromKey_iff (size : WordSize) (pcd : CryptoPcd) (key : RsaPublicKey)
    (valid : key.Valid) (signature hash : Bytes) (algorithm : SigHashType)
    (allowed : internalSigHashTypeIsAllowed pcd algorithm = true)
    (kept : ¬LengthWraps size pcd key) :
    rsaVerifySigHashFromKey size pcd key signature hash algorithm = true ↔
      SignatureMatches pcd key signature hash algorithm := by
  by_cases counted : key.numQwords * (8 / size.bytes) < u16
  · exact rsaVerifySigHashFromKey_counted valid counted allowed
  · have bound := key.numQwords_lt
    rw [u16_val] at bound counted
    cases size with
    | uint64 => exact absurd (show key.numQwords * 1 < 65536 by omega) counted
    | uint32 =>
      have many : ¬key.numQwords * 2 < 65536 := counted
      have left : keyNumWords .uint32 key * WordSize.uint32.bytes =
          8 * (key.numQwords - 0x8000) := by
        show key.numQwords * 2 % 65536 * 4 = _
        omega
      constructor
      · intro verified
        have size := allowed_of_verified verified
        rw [left] at size
        exact absurd ⟨rfl, by omega, size⟩ kept
      · rintro ⟨size, _⟩
        have small := modulusSize_lt size
        rw [u16_val] at small
        omega

section Sample

def sampleModulus (count : Nat) : List (BitVec 64) :=
  0xffffffffffe25cef :: replicate count 0xffffffffffffffff

def sampleKey (count : Nat) (fits : count + 1 < u16) : RsaPublicKey where
  numQwords := count + 1
  n0Inv := 0x16d070b41077adf1
  data := sampleModulus count ++ (3772486559521 :: replicate count 0)
  numQwords_lt := fits
  data_length := by
    simp only [sampleModulus, length_append, length_cons, length_replicate]
    omega

theorem value_sampleModulus (count : Nat) :
    value (sampleModulus count) + 1942289 = capacity 64 (count + 1) := by
  have ones : value (replicate count (0xffffffffffffffff : BitVec 64)) + 1 =
      capacity 64 count := by
    induction count with
    | zero => rfl
    | succ count ih =>
      have word : (0xffffffffffffffff : BitVec 64).toNat = 2 ^ 64 - 1 := by decide
      rw [replicate_succ, value_cons, word, capacity_succ, ← ih]
      omega
  have word : (0xffffffffffe25cef : BitVec 64).toNat = 2 ^ 64 - 1942289 := by decide
  rw [sampleModulus, value_cons, word, capacity_succ, ← ones]
  omega

theorem sampleModulus_length (count : Nat) : (sampleModulus count).length = count + 1 := by
  rw [sampleModulus, length_cons, length_replicate]

theorem sampleKey_n (count : Nat) (fits : count + 1 < u16) :
    (sampleKey count fits).n = sampleModulus count :=
  take_left' (sampleModulus_length count)

theorem sampleKey_rSqrMod (count : Nat) (fits : count + 1 < u16) :
    (sampleKey count fits).rSqrMod = 3772486559521 :: replicate count 0 :=
  drop_left' (sampleModulus_length count)

theorem sampleKey_valid (count : Nat) (fits : count + 1 < u16) : (sampleKey count fits).Valid := by
  have total := value_sampleModulus count
  have wide : 2 ^ 64 ≤ capacity 64 (count + 1) := by
    rw [capacity_succ]
    exact Nat.le_mul_of_pos_right _ (capacity_pos count)
  have even : capacity 64 (count + 1) % 2 = 0 := by
    rw [capacity_succ, show (2 : Nat) ^ 64 = 2 * 2 ^ 63 by decide, mul_assoc, Nat.mul_mod_right]
  have zeros : value (replicate count (0 : BitVec 64)) = 0 := value_replicate_zero count
  constructor
  · rw [sampleKey_n]
    omega
  · rw [sampleKey_n]
    show capacity 64 (count + 1) ≤ _
    omega
  · rw [sampleKey_n]
    show (0x16d070b41077adf1 : BitVec 64) * 0xffffffffffe25cef = -1
    decide
  · -- `R` leaves `1942289`, and the square of that is still below the modulus.
    have square : capacity 64 (count + 1) ^ 2 =
        3772486559521 + value (sampleModulus count) * (capacity 64 (count + 1) + 1942289) := by
      rw [← total]
      ring
    rw [sampleKey_n, sampleKey_rSqrMod, value_cons, zeros]
    show 3772486559521 = capacity 64 (count + 1) ^ 2 % _
    rw [square, Nat.add_mul_mod_self_left, Nat.mod_eq_of_lt (by omega)]

def sampleHash : Bytes := replicate 32 0xAA

def sampleSignature : Bytes :=
  [0x98, 0xcb, 0xe7, 0x13, 0x57, 0x6a, 0xd4, 0x52, 0xe9, 0xd5, 0x11, 0x90, 0x21, 0xc5, 0x4d, 0xb7,
    0x44, 0xe7, 0x25, 0xe2, 0xe5, 0x8d, 0x98, 0x7f, 0xfb, 0x15, 0x19, 0x52, 0x3a, 0x12, 0x16, 0xb7,
    0x8b, 0x86, 0xb1, 0x1f, 0x29, 0xf6, 0x74, 0x91, 0x81, 0x40, 0x13, 0x29, 0x98, 0x27, 0xca, 0x93,
    0x85, 0x69, 0xe9, 0x3c, 0x4d, 0xf5, 0xb3, 0x0e, 0xb3, 0xb9, 0x88, 0xd8, 0xf0, 0x01, 0x62, 0xdb,
    0x04, 0x30, 0xa0, 0x71, 0xdb, 0x0c, 0xd1, 0xd0, 0xdc, 0xe8, 0xd3, 0xd4, 0x07, 0x0c, 0x91, 0x63,
    0x43, 0x10, 0xe8, 0x97, 0xe4, 0xe9, 0x29, 0x5c, 0x7f, 0x7e, 0xd4, 0x06, 0x6e, 0x1a, 0xfc, 0xc7,
    0xab, 0x9a, 0xb0, 0x3f, 0xfd, 0x6f, 0x3a, 0x61, 0x46, 0xfa, 0xa3, 0xf5, 0x01, 0x7c, 0x77, 0xc7,
    0x55, 0x4a, 0x28, 0xf4, 0x56, 0x74, 0xcf, 0x88, 0x00, 0x68, 0x76, 0x18, 0x22, 0x91, 0x9d, 0xe1,
    0x6d, 0xb4, 0x5e, 0xb0, 0x6f, 0x16, 0x4a, 0x6b, 0x3e, 0x12, 0xc6, 0xc6, 0x2e, 0x7e, 0x2e, 0x71,
    0x05, 0xa8, 0xa6, 0x86, 0x8c, 0x55, 0x24, 0x22, 0x25, 0x42, 0x75, 0x89, 0x1e, 0x62, 0x68, 0xdd,
    0x8a, 0xf7, 0x2b, 0xb3, 0x45, 0xf7, 0xe4, 0xbc, 0xd1, 0xe4, 0xb9, 0x97, 0x4c, 0x5a, 0x58, 0xce,
    0x85, 0x68, 0x62, 0xd6, 0x3c, 0x4b, 0xdf, 0xe6, 0x92, 0xd3, 0x47, 0x38, 0xcd, 0x8e, 0x72, 0x57,
    0x6e, 0x83, 0x04, 0x90, 0x94, 0xf8, 0x71, 0x74, 0x48, 0x28, 0x02, 0x53, 0x1a, 0x4b, 0x86, 0xcc,
    0x9e, 0x15, 0xae, 0x47, 0x39, 0xa4, 0x4a, 0x55, 0xdc, 0xf3, 0xa2, 0x16, 0xc4, 0x52, 0xef, 0x34,
    0xe9, 0x1a, 0x70, 0x1a, 0xd0, 0x3e, 0xca, 0xfa, 0x83, 0x72, 0xc0, 0xf8, 0x22, 0x5f, 0x6b, 0x36,
    0x01, 0x4a, 0xaf, 0x45, 0x67, 0xdb, 0x46, 0xed, 0xba, 0xef, 0x8c, 0x44, 0x0a, 0xb9, 0xb8, 0xd7]

set_option maxRecDepth 4000

theorem sampleSignature_length : sampleSignature.length = 256 := rfl

theorem pow_stages_mod (base modulus first second : Nat) :
    base ^ (first * second + 1) % modulus = (base ^ first % modulus) ^ second * base % modulus := by
  rw [pow_succ, Nat.pow_mul, Nat.mul_mod, Nat.pow_mod, ← Nat.mul_mod]

theorem sampleSignature_encodes :
    Encodes (toBigEndian 256 (bigEndian sampleSignature ^ 0x10001 % value (sampleModulus 31)))
      (pkcsDigestEncodingPrefix .sha256) sampleHash := by
  have staged := pow_stages_mod (bigEndian sampleSignature) (value (sampleModulus 31)) 256 256
  refine ⟨202, by decide, toBigEndian_eq ?_ ?_⟩
  · rw [show 0x10001 = 256 * 256 + 1 from rfl, staged]
    decide
  · simp only [sampleHash, length_append, length_replicate]
    decide

/-- The sample key of 2048 bits verifies the signature. -/
theorem rsaVerifySigHashFromKey_sample :
    rsaVerifySigHashFromKey .uint64 {} (sampleKey 31 (by decide)) sampleSignature sampleHash
      .sha256 = true := by
  apply (rsaVerifySigHashFromKey_iff .uint64 {} (sampleKey 31 (by decide)) (sampleKey_valid 31 _)
    sampleSignature sampleHash .sha256 (by decide) (fun wraps => nomatch wraps.1)).mpr
  refine ⟨by decide, sampleSignature_length, ?_⟩
  rw [sampleKey_n]
  exact sampleSignature_encodes

/-- A key of `32800` 64-bit values, on a machine of 32 bits: `65600` words are counted as
`64`, and the signature under the low words of the modulus is accepted. -/
theorem rsaVerifySigHashFromKey_wrapped :
    let key := sampleKey 32799 (by decide)
    key.Valid ∧ internalSigHashTypeIsAllowed {} .sha256 = true ∧
      rsaVerifySigHashFromKey .uint32 {} key sampleSignature sampleHash .sha256 = true ∧
      ¬SignatureMatches {} key sampleSignature sampleHash .sha256 := by
  have short : 31 + 1 < u16 := by decide
  have low := sampleKey_valid 31 short
  have modulus : (qwordParams .uint32 low.params).n = qwordWords .uint32 (sampleModulus 31) :=
    congrArg (qwordWords .uint32) (sampleKey_n 31 short)
  have rSqrMod : (qwordParams .uint32 low.params).rSqrMod =
      qwordWords .uint32 (3772486559521 :: replicate 31 0) :=
    congrArg (qwordWords .uint32) (sampleKey_rSqrMod 31 short)
  -- The low words of the long key are the words of the key of 2048 bits.
  have dataWords : (qwordWords .uint32 (sampleKey 32799 (by decide)).data).take 64 =
      (qwordParams .uint32 low.params).n := by
    have split : (sampleKey 32799 (by decide)).data = sampleModulus 31 ++
        (replicate 32768 0xffffffffffffffff ++ (3772486559521 :: replicate 32799 0)) := by
      show sampleModulus (31 + 32768) ++ _ = _
      rw [sampleModulus, sampleModulus, replicate_add, cons_append, cons_append,
        append_assoc]
    rw [modulus, split, qwordWords_append]
    exact take_left' (qwordWords_length .uint32 _)
  have rSqrWords : (qwordWords .uint32 ((sampleKey 32799 (by decide)).data.drop 32800)).take 64 =
      (qwordParams .uint32 low.params).rSqrMod := by
    have split : (sampleKey 32799 (by decide)).data.drop 32800 =
        (3772486559521 :: replicate 31 0) ++ replicate 32768 0 := by
      refine (sampleKey_rSqrMod 32799 (by decide)).trans ?_
      rw [show (32799 : Nat) = 31 + 32768 by decide, replicate_add, cons_append]
    rw [rSqrMod, split, qwordWords_append]
    exact take_left' (qwordWords_length .uint32 _)
  have topBit : capacity 32 64 ≤ 2 * value (qwordParams .uint32 low.params).n := by
    rw [modulus, qwordWords_value]
    decide
  have processed := @rsaVerifySigHashFromProcessed_iff .uint32 {} 64
    (qwordParams .uint32 low.params) topBit _ _ dataWords rSqrWords sampleSignature sampleHash
    .sha256
  have counted : keyNumWords .uint32 (sampleKey 32799 (by decide)) = 64 := by decide
  refine ⟨sampleKey_valid 32799 _, by decide, ?_, ?_⟩
  · rw [rsaVerifySigHashFromKey, counted]
    apply processed.mpr
    refine ⟨by decide, by decide, by decide, sampleSignature_length, ?_⟩
    rw [modulus, qwordWords_value]
    exact sampleSignature_encodes
  · rintro ⟨allowed, _⟩
    cases allowed

end Sample

end OpenCore.RsaDigitalSign
