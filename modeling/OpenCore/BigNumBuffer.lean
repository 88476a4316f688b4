import OpenCore.BigEndian
import OpenCore.BigNumShifts
import OpenCore.ByteBuffer

/-!
Numbers in and out of byte buffers: `BigNumParseBuffer` reads a big-endian buffer
into words, and the signature check writes words back as a big-endian message by
swapping each of them. The words of the message lie in little-endian memory.
-/

namespace OpenCore.BigNumBuffer

open ByteBuffer BigEndian WordArray BigNumPrimitives BigNumShifts List

def shiftedByte (width : Nat) (buffer : Bytes) (index shift : Nat) : BitVec width :=
  (buffer.getD index 0).toBitVec.setWidth width <<< shift

def parseWord32 (buffer : Bytes) : BitVec 32 :=
  shiftedByte 32 buffer 0 24 ||| shiftedByte 32 buffer 1 16 ||| shiftedByte 32 buffer 2 8 |||
    shiftedByte 32 buffer 3 0

def parseWord64 (buffer : Bytes) : BitVec 64 :=
  shiftedByte 64 buffer 0 56 ||| shiftedByte 64 buffer 1 48 ||| shiftedByte 64 buffer 2 40 |||
    shiftedByte 64 buffer 3 32 ||| shiftedByte 64 buffer 4 24 ||| shiftedByte 64 buffer 5 16 |||
    shiftedByte 64 buffer 6 8 ||| shiftedByte 64 buffer 7 0

def parseWord : (size : WordSize) → Bytes → BitVec size.numBits
  | .uint32, buffer => parseWord32 buffer
  | .uint64, buffer => parseWord64 buffer

def bigNumParseBuffer (size : WordSize) (buffer : Bytes) : List (BitVec size.numBits) :=
  (List.range (buffer.length / size.bytes)).map fun index =>
    parseWord size (buffer.drop (buffer.length - (index + 1) * size.bytes))

def wordMemory (size : WordSize) (word : BitVec size.numBits) : Bytes :=
  encode size.bytes word.toNat

def bigNumSwapWord (size : WordSize) (word : BitVec size.numBits) : BitVec size.numBits :=
  parseWord size (wordMemory size word)

def swappedMessage (size : WordSize) (number : List (BitVec size.numBits)) : Bytes :=
  ((List.range number.length).map fun index =>
    bigNumSwapWord size (number.getD (number.length - 1 - index) 0)).flatMap (wordMemory size)

theorem wordSize_bytes_pos (size : WordSize) : 0 < size.bytes := by
  cases size with
  | uint32 => decide
  | uint64 => decide

theorem word_base (size : WordSize) : 2 ^ size.numBits = 256 ^ size.bytes := by
  rw [WordSize.numBits, mul_comm, Nat.pow_mul]

section Parse

theorem shiftedByte_toNat {width : Nat} (byte : UInt8) {shift : Nat} (inside : shift + 8 ≤ width) :
    (byte.toBitVec.setWidth width <<< shift).toNat = byte.toNat * 2 ^ shift := by
  have small := byte.toNat_lt
  have narrow : byte.toNat < 2 ^ width :=
    lt_of_lt_of_le small (Nat.pow_le_pow_right (by decide) (show 8 ≤ width by omega))
  have moved : byte.toNat * 2 ^ shift < 2 ^ width := by
    calc byte.toNat * 2 ^ shift < 2 ^ 8 * 2 ^ shift :=
          Nat.mul_lt_mul_of_pos_right small (Nat.two_pow_pos shift)
      _ = 2 ^ (shift + 8) := by rw [← pow_add, add_comm]
      _ ≤ 2 ^ width := Nat.pow_le_pow_right (by decide) inside
  rw [BitVec.toNat_shiftLeft, BitVec.toNat_setWidth, UInt8.toNat_toBitVec,
    Nat.mod_eq_of_lt narrow, Nat.shiftLeft_eq, Nat.mod_eq_of_lt moved]

theorem or_byte (high : Nat) (byte : UInt8) (shift : Nat) :
    high * 2 ^ (shift + 8) ||| byte.toNat * 2 ^ shift = (high * 256 + byte.toNat) * 2 ^ shift := by
  have small : byte.toNat * 2 ^ shift < 2 ^ (shift + 8) := by
    rw [pow_add, mul_comm (2 ^ shift)]
    exact Nat.mul_lt_mul_of_pos_right byte.toNat_lt (Nat.two_pow_pos shift)
  rw [mul_comm high, or_halves _ _ _ small, pow_add]
  ring

theorem parseWord32_toNat (b0 b1 b2 b3 : UInt8) (rest : Bytes) :
    (parseWord32 (b0 :: b1 :: b2 :: b3 :: rest)).toNat = bigEndian [b0, b1, b2, b3] := by
  simp only [parseWord32, shiftedByte, getD_cons_zero, getD_cons_succ, BitVec.toNat_or]
  rw [shiftedByte_toNat b0 (by decide), shiftedByte_toNat b1 (by decide),
    shiftedByte_toNat b2 (by decide), shiftedByte_toNat b3 (by decide),
    or_byte b0.toNat b1 16, or_byte _ b2 8, or_byte _ b3 0]
  simp [bigEndian]

theorem parseWord64_toNat (b0 b1 b2 b3 b4 b5 b6 b7 : UInt8) (rest : Bytes) :
    (parseWord64 (b0 :: b1 :: b2 :: b3 :: b4 :: b5 :: b6 :: b7 :: rest)).toNat =
      bigEndian [b0, b1, b2, b3, b4, b5, b6, b7] := by
  simp only [parseWord64, shiftedByte, getD_cons_zero, getD_cons_succ, BitVec.toNat_or]
  rw [shiftedByte_toNat b0 (by decide), shiftedByte_toNat b1 (by decide),
    shiftedByte_toNat b2 (by decide), shiftedByte_toNat b3 (by decide),
    shiftedByte_toNat b4 (by decide), shiftedByte_toNat b5 (by decide),
    shiftedByte_toNat b6 (by decide), shiftedByte_toNat b7 (by decide),
    or_byte b0.toNat b1 48, or_byte _ b2 40, or_byte _ b3 32, or_byte _ b4 24,
    or_byte _ b5 16, or_byte _ b6 8, or_byte _ b7 0]
  simp [bigEndian]

theorem parseWord_toNat (size : WordSize) {buffer : Bytes} (enough : size.bytes ≤ buffer.length) :
    (parseWord size buffer).toNat = bigEndian (buffer.take size.bytes) := by
  cases size with
  | uint32 =>
    match buffer, enough with
    | b0 :: b1 :: b2 :: b3 :: rest, _ => exact parseWord32_toNat b0 b1 b2 b3 rest
  | uint64 =>
    match buffer, enough with
    | b0 :: b1 :: b2 :: b3 :: b4 :: b5 :: b6 :: b7 :: rest, _ =>
      exact parseWord64_toNat b0 b1 b2 b3 b4 b5 b6 b7 rest

@[simp] theorem bigNumParseBuffer_length (size : WordSize) (buffer : Bytes) :
    (bigNumParseBuffer size buffer).length = buffer.length / size.bytes := by
  rw [bigNumParseBuffer, length_map, length_range]

theorem bigNumParseBuffer_append (size : WordSize) (high low : Bytes)
    (word : low.length = size.bytes) :
    bigNumParseBuffer size (high ++ low) = parseWord size low :: bigNumParseBuffer size high := by
  have positive := wordSize_bytes_pos size
  have count : (high ++ low).length / size.bytes = high.length / size.bytes + 1 := by
    rw [length_append, word, Nat.add_div_right _ positive]
  rw [bigNumParseBuffer, bigNumParseBuffer, count, range_succ_eq_map, map_cons,
    map_map, length_append, word]
  congr 1
  · rw [zero_add, one_mul, Nat.add_sub_cancel, drop_left]
  · apply map_congr_left
    intro index inside
    have below : (index + 1) * size.bytes ≤ high.length := by
      rw [mem_range] at inside
      exact (Nat.le_div_iff_mul_le positive).mp inside
    have start : high.length + size.bytes - (index + 1 + 1) * size.bytes =
        high.length - (index + 1) * size.bytes := by
      rw [Nat.succ_mul (index + 1)]
      omega
    have whole : size.bytes ≤ (high.drop (high.length - (index + 1) * size.bytes)).length := by
      rw [length_drop]
      have one : size.bytes ≤ (index + 1) * size.bytes := Nat.le_mul_of_pos_left _ (by omega)
      omega
    rw [Function.comp_apply, Nat.succ_eq_add_one, start, drop_append_of_le_length (by omega)]
    apply BitVec.eq_of_toNat_eq
    rw [parseWord_toNat size whole, parseWord_toNat size (by rw [length_append]; omega),
      take_append_of_le_length whole]

theorem bigNumParseBuffer_value (size : WordSize) {buffer : Bytes} {count : Nat}
    (whole : buffer.length = count * size.bytes) :
    value (bigNumParseBuffer size buffer) = bigEndian buffer := by
  induction count generalizing buffer with
  | zero =>
    rw [zero_mul] at whole
    rw [eq_nil_of_length_eq_zero whole, bigNumParseBuffer, length_nil, Nat.zero_div]
    rfl
  | succ count ih =>
    rw [Nat.succ_mul] at whole
    obtain ⟨high, low, rfl, highLength, lowLength⟩ :
        ∃ high low, buffer = high ++ low ∧ high.length = count * size.bytes ∧
          low.length = size.bytes := by
      refine ⟨buffer.take (count * size.bytes), buffer.drop (count * size.bytes),
        (take_append_drop _ _).symm, ?_, ?_⟩
      · rw [length_take]
        omega
      · rw [length_drop]
        omega
    rw [bigNumParseBuffer_append size high low lowLength, value_cons, ih highLength,
      parseWord_toNat size lowLength.ge, ← lowLength, take_length, bigEndian_append,
      word_base, lowLength]
    ring

end Parse

section Message

theorem encode_eq_reverse (count number : Nat) :
    encode count number = (toBigEndian count number).reverse := by
  induction count generalizing number with
  | zero => rfl
  | succ count ih => rw [encode, toBigEndian, reverse_concat, ih]

theorem wordMemory_swapWord (size : WordSize) (word : BitVec size.numBits) :
    wordMemory size (bigNumSwapWord size word) = toBigEndian size.bytes word.toNat := by
  have length : (wordMemory size word).length = size.bytes := by
    rw [wordMemory, encode_eq_reverse, length_reverse, length_toBigEndian]
  have swapped : (bigNumSwapWord size word).toNat = bigEndian (wordMemory size word) := by
    rw [bigNumSwapWord, parseWord_toNat size length.ge, ← length, take_length]
  rw [wordMemory, encode_eq_reverse, swapped]
  nth_rewrite 1 [← length]
  rw [toBigEndian_bigEndian, wordMemory, encode_eq_reverse, reverse_reverse]

theorem swappedMessage_eq (size : WordSize) (number : List (BitVec size.numBits)) :
    swappedMessage size number =
      number.reverse.flatMap fun word => toBigEndian size.bytes word.toNat := by
  have words : ((List.range number.length).map fun index =>
      bigNumSwapWord size (number.getD (number.length - 1 - index) 0)) =
        number.reverse.map (bigNumSwapWord size) := by
    apply ext_getElem
    · simp
    · intro index inside _
      have below : index < number.length := by simpa using inside
      have mirrored : number.length - 1 - index < number.length := by omega
      simp [getD_eq_getElem?_getD, mirrored]
  rw [swappedMessage, words, flatMap_map]
  congr 1
  funext word
  exact wordMemory_swapWord size word

theorem swappedMessage_spec (size : WordSize) (number : List (BitVec size.numBits)) :
    swappedMessage size number = toBigEndian (number.length * size.bytes) (value number) := by
  have message : (swappedMessage size number).length = number.length * size.bytes ∧
      bigEndian (swappedMessage size number) = value number := by
    rw [swappedMessage_eq]
    induction number with
    | nil => exact ⟨(zero_mul _).symm, rfl⟩
    | cons word rest ih =>
      obtain ⟨length, same⟩ := ih
      have fits : word.toNat < 256 ^ size.bytes := word_base size ▸ word.isLt
      rw [reverse_cons, flatMap_append, flatMap_singleton]
      constructor
      · rw [length_append, length, length_toBigEndian, length_cons, Nat.succ_mul]
      · rw [bigEndian_append, same, length_toBigEndian, bigEndian_toBigEndian fits, value_cons,
          word_base]
        ring
  rw [← message.1, ← message.2, toBigEndian_bigEndian]

end Message

end OpenCore.BigNumBuffer
