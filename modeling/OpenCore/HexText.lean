import OpenCore.PlistTree

/-!
Numbers printed by `AsciiUint64ToLowerHex` read back through `PlistIntegerValue`.
-/

namespace OpenCore.HexText

open Base ByteBuffer XmlParse Plist PlistTree

def digitByte (digit : Nat) : UInt8 := UInt8.ofNat (Nat.digitChar digit).toNat

theorem hexDigit_digitByte {digit : Nat} (small : digit < 16) :
    hexDigit (digitByte digit) = some digit := by
  have all : ∀ digit : Fin 16, hexDigit (digitByte digit.val) = some digit.val := by decide
  exact all ⟨digit, small⟩

variable {value : Nat}

theorem hexDigits_small (small : value < 16) : hexDigits value = [digitByte value] := by
  rw [hexDigits, Nat.toDigits_of_lt_base small]
  rfl

theorem hexDigits_large (large : 16 ≤ value) :
    hexDigits value = hexDigits (value / 16) ++ [digitByte (value % 16)] := by
  rw [hexDigits, Nat.toDigits_of_base_le (by decide) large, List.map_append]
  rfl

theorem digitsValue_concat {digits : Bytes} {last : UInt8} {value total : Nat}
    (all : ∀ c ∈ digits, (hexDigit c).isSome) (digit : hexDigit last = some value) :
    digitsValue 16 hexDigit total (digits ++ [last]) =
      min (digitsValue 16 hexDigit total digits * 16 + value) (u64 - 1) := by
  induction digits generalizing total with
  | nil => simp [digitsValue, digit]
  | cons c rest ih =>
    obtain ⟨first, read⟩ := Option.isSome_iff_exists.mp (all c List.mem_cons_self)
    rw [List.cons_append, digitsValue, digitsValue, read]
    exact ih fun c' member => all c' (List.mem_cons_of_mem _ member)

theorem hexDigits_digits (value : Nat) : ∀ c ∈ hexDigits value, (hexDigit c).isSome := by
  induction value using Nat.strongRecOn with
  | _ value ih =>
    by_cases small : value < 16
    · rw [hexDigits_small small]
      simp [hexDigit_digitByte small]
    · have large := Nat.le_of_not_lt small
      rw [hexDigits_large large]
      intro c member
      rcases List.mem_append.mp member with front | last
      · exact ih (value / 16) (Nat.div_lt_self (by omega) (by decide)) c front
      · rw [List.mem_singleton.mp last, hexDigit_digitByte (Nat.mod_lt _ (by decide))]
        rfl

theorem digitsValue_hexDigits (fits : value < u64) :
    digitsValue 16 hexDigit 0 (hexDigits value) = value := by
  induction value using Nat.strongRecOn with
  | _ value ih =>
    rw [u64_val] at fits
    by_cases small : value < 16
    · rw [hexDigits_small small, digitsValue, hexDigit_digitByte small]
      simp only [digitsValue, u64_val]
      omega
    · have large := Nat.le_of_not_lt small
      have front := ih (value / 16) (Nat.div_lt_self (by omega) (by decide)) (by rw [u64_val]; omega)
      rw [hexDigits_large large, digitsValue_concat (hexDigits_digits _)
        (hexDigit_digitByte (Nat.mod_lt _ (by decide))), front, u64_val]
      omega

theorem asciiStrHexToUint64_text (fits : value < u64) :
    asciiStrHexToUint64 (asciiUint64ToLowerHex value) = value := by
  have lead : asciiUint64ToLowerHex value = 48 :: 120 :: hexDigits value := by
    rw [asciiUint64ToLowerHex]
    rfl
  rw [lead, asciiStrHexToUint64]
  simp only [skipBlanks]
  simp [digitsValue_hexDigits fits]

theorem integerValue_hex {attributes : Option Bytes} (fits : value < u32) :
    integerValue (.mk (ascii "integer") attributes (some (asciiUint64ToLowerHex value)) []) u32 =
      some value := by
  have lead : asciiUint64ToLowerHex value = 48 :: 120 :: hexDigits value := by
    rw [asciiUint64ToLowerHex]
    rfl
  have wide : value < u64 := by
    simp only [u32_val, u64_val] at *
    omega
  have read := asciiStrHexToUint64_text wide
  rw [lead] at read
  simp [integerValue, plistIntegerValue, plistNodeCast, plistNodeTypes, plistNodeShape, Tree.plistNode,
    Tree.plistNodes, XmlNode.name, xmlNodeContent, xmlNodeChildren, XmlNode.children, lead, skipBlanks, read]
  rw [u32_val] at fits
  omega

theorem hexText_ended (value : Nat) : 0 ∉ asciiUint64ToLowerHex value := by
  have lead : asciiUint64ToLowerHex value = 48 :: 120 :: hexDigits value := by
    rw [asciiUint64ToLowerHex]
    rfl
  have digits : 0 ∉ hexDigits value := by
    intro member
    have digit := hexDigits_digits value 0 member
    revert digit
    decide
  rw [lead]
  simp [digits]

end OpenCore.HexText
