import Mathlib.Data.Int.ModEq
import OpenCore.Plist

/-!
`PlistIntegerValue` on the texts of numbers: blanks, a sign, `0x` before hexadecimal digits. A
caller that allows hexadecimal text passes `Hex`, which is dropped if the text does not look like
it; but the test drops it only if neither of the two characters of the prefix is there.
-/

namespace OpenCore.PlistInteger

open Base ByteBuffer Plist List

section Source

def integerSizes : List Nat := [8, 4, 2, 1]

def plistIntegerValueOfSize (node : XmlNode) (size : Nat) (hex : Bool) : Option Nat :=
  if size ∈ integerSizes then plistIntegerValue node (256 ^ size) hex else none

end Source

section Numerals

inductive Sign where
  | unsigned
  | minus
  | plus
  deriving DecidableEq

def Sign.text : Sign → Bytes
  | .unsigned => []
  | .minus => [45]
  | .plus => [43]

def Sign.apply (number : Nat) : Sign → Int
  | .minus => -number
  | _ => number

def numberOf (radix : Nat) (digit : UInt8 → Option Nat) (digits : Bytes) : Nat :=
  digits.foldl (fun total c => total * radix + (digit c).getD 0) 0

def digitOf (hexadecimal : Bool) : UInt8 → Option Nat :=
  if hexadecimal then hexDigit else decimalDigit

def radixOf (hexadecimal : Bool) : Nat := if hexadecimal then 16 else 10

structure Numeral where
  blanks : Bytes
  sign : Sign
  hexadecimal : Bool
  digits : Bytes
  onlyBlanks : ∀ c ∈ blanks, c = 32 ∨ c = 9
  onlyDigits : ∀ c ∈ digits, (digitOf hexadecimal c).isSome = true
  nonempty : digits ≠ []

namespace Numeral

def body (numeral : Numeral) : Bytes :=
  (if numeral.hexadecimal then [48, 120] else []) ++ numeral.digits

def text (numeral : Numeral) : Bytes := numeral.blanks ++ (numeral.sign.text ++ numeral.body)

def number (numeral : Numeral) : Nat :=
  numberOf (radixOf numeral.hexadecimal) (digitOf numeral.hexadecimal) numeral.digits

def truncated (numeral : Numeral) (size : Nat) : Nat :=
  (numeral.sign.apply numeral.number % (256 ^ size : Nat)).toNat

def readAs (numeral : Numeral) (hex : Bool) : Nat :=
  if hex = true ∧ numeral.digits.head? = some 48 then numberOf 16 hexDigit numeral.digits
  else numeral.number

/-- The number that is read, which stops at the largest integer, agrees with the one that is
denoted. Behind a plus sign nothing is read. -/
def Agrees (numeral : Numeral) (size : Nat) (hex : Bool) : Prop :=
  match numeral.sign with
  | .plus => numeral.number % 256 ^ size = 0
  | _ => min (numeral.readAs hex) (u64 - 1) % 256 ^ size = numeral.number % 256 ^ size

instance (numeral : Numeral) (size : Nat) (hex : Bool) : Decidable (numeral.Agrees size hex) := by
  unfold Agrees
  split <;> infer_instance

end Numeral

end Numerals

section Digits
variable {radix : Nat} {digit : UInt8 → Option Nat} {digits : Bytes} {c : UInt8}

theorem digitsValue_eq (positive : 0 < radix) (valid : ∀ c ∈ digits, (digit c).isSome = true)
    (total : Nat) : digitsValue radix digit (min total (u64 - 1)) digits =
      min (digits.foldl (fun total c => total * radix + (digit c).getD 0) total) (u64 - 1) := by
  induction digits generalizing total with
  | nil => rfl
  | cons c rest ih =>
    obtain ⟨value, read⟩ := Option.isSome_iff_exists.mp (valid c mem_cons_self)
    have later := ih fun other member => valid other (mem_cons_of_mem _ member)
    rw [digitsValue, foldl_cons, read, Option.getD_some, ← later (total * radix + value)]
    have saturates : min (min total (u64 - 1) * radix + value) (u64 - 1) =
        min (total * radix + value) (u64 - 1) := by
      by_cases small : total ≤ u64 - 1
      · rw [min_eq_left small]
      · have most : u64 - 1 ≤ (u64 - 1) * radix := Nat.le_mul_of_pos_right _ positive
        have more : u64 - 1 ≤ total * radix :=
          (Nat.le_of_not_le small).trans (Nat.le_mul_of_pos_right _ positive)
        rw [min_eq_right (Nat.le_of_not_le small), min_eq_right (by omega), min_eq_right (by omega)]
    simp only [saturates]

theorem digitsValue_zero (positive : 0 < radix) (valid : ∀ c ∈ digits, (digit c).isSome = true) :
    digitsValue radix digit 0 digits = min (numberOf radix digit digits) (u64 - 1) :=
  digitsValue_eq positive valid 0

theorem hexDigit_of_decimalDigit (decimal : (decimalDigit c).isSome = true) :
    (hexDigit c).isSome = true := by
  unfold decimalDigit at decimal
  unfold hexDigit
  split at decimal
  · rename_i range
    rw [if_pos range]
    rfl
  · cases decimal

theorem digit_plain {hexadecimal : Bool} (valid : (digitOf hexadecimal c).isSome = true) :
    c ≠ 32 ∧ c ≠ 9 ∧ c ≠ 45 ∧ c ≠ 120 ∧ c ≠ 88 := by
  refine ⟨?_, ?_, ?_, ?_, ?_⟩ <;>
    · rintro rfl
      cases hexadecimal <;> exact absurd valid (by decide)

theorem skipBlanks_blanks {blanks rest : Bytes} (only : ∀ c ∈ blanks, c = 32 ∨ c = 9) :
    skipBlanks (blanks ++ rest) = skipBlanks rest := by
  induction blanks with
  | nil => rfl
  | cons c blanks ih =>
    rw [cons_append, skipBlanks, if_pos (only c mem_cons_self)]
    exact ih fun other member => only other (mem_cons_of_mem _ member)

theorem skipBlanks_cons {rest : Bytes} (plain : c ≠ 32 ∧ c ≠ 9) : skipBlanks (c :: rest) = c :: rest :=
  if_neg (not_or.mpr plain)

theorem numberOf_zeros (zeros : Bytes) (only : ∀ c ∈ zeros, c = 48) (rest : Bytes) :
    numberOf 16 hexDigit (zeros ++ rest) = numberOf 16 hexDigit rest := by
  induction zeros with
  | nil => rfl
  | cons c zeros ih =>
    have zero := only c mem_cons_self
    subst zero
    exact ih fun other member => only other (mem_cons_of_mem _ member)

theorem asciiStrDecimalToUint64_digits (valid : ∀ c ∈ digits, (decimalDigit c).isSome = true) :
    asciiStrDecimalToUint64 digits = min (numberOf 10 decimalDigit digits) (u64 - 1) := by
  rw [← digitsValue_zero (by decide) valid, asciiStrDecimalToUint64]
  cases digits with
  | nil => rfl
  | cons c rest =>
    have plain : c ≠ 32 ∧ c ≠ 9 ∧ _ := @digit_plain _ false (valid c mem_cons_self)
    rw [skipBlanks_cons ⟨plain.1, plain.2.1⟩]

theorem asciiStrHexToUint64_digits (valid : ∀ c ∈ digits, (hexDigit c).isSome = true) :
    asciiStrHexToUint64 digits = min (numberOf 16 hexDigit digits) (u64 - 1) := by
  have trimmed : skipBlanks digits = digits := by
    cases digits with
    | nil => rfl
    | cons c rest =>
      have plain : c ≠ 32 ∧ c ≠ 9 ∧ _ := @digit_plain _ true (valid c mem_cons_self)
      exact skipBlanks_cons ⟨plain.1, plain.2.1⟩
  have zeros : ∀ c ∈ digits.takeWhile (· = 48), c = 48 := by
    intro c member
    exact of_decide_eq_true (all_eq_true.mp all_takeWhile c member)
  have number : numberOf 16 hexDigit digits = numberOf 16 hexDigit (digits.dropWhile (· = 48)) := by
    rw [← numberOf_zeros _ zeros (digits.dropWhile (· = 48)), takeWhile_append_dropWhile]
  have rest : ∀ c ∈ digits.dropWhile (· = 48), (hexDigit c).isSome = true :=
    fun c member => valid c ((dropWhile_sublist _).subset member)
  rw [asciiStrHexToUint64, trimmed, number]
  cases left : digits.dropWhile (· = 48) with
  | nil => rfl
  | cons c rest' =>
    rw [left] at rest
    obtain ⟨_, _, _, lower, upper⟩ := @digit_plain _ true (rest c mem_cons_self)
    simp only [if_neg (not_or.mpr ⟨lower, upper⟩)]
    exact digitsValue_zero (by decide) rest

theorem asciiStrHexToUint64_prefixed (valid : ∀ c ∈ digits, (hexDigit c).isSome = true) :
    asciiStrHexToUint64 (48 :: 120 :: digits) = min (numberOf 16 hexDigit digits) (u64 - 1) := by
  have trimmed : skipBlanks (48 :: 120 :: digits) = 48 :: 120 :: digits :=
    skipBlanks_cons (by decide)
  have left : (48 :: 120 :: digits).dropWhile (· = 48) = 120 :: digits := rfl
  have behind : (120 :: digits : Bytes).length < (48 :: 120 :: digits).length := Nat.lt_succ_self _
  rw [asciiStrHexToUint64, trimmed, left]
  simp only [true_or, if_true, if_pos behind]
  exact digitsValue_zero (by decide) valid

end Digits

section Values
variable {numeral : Numeral} {digits : Bytes} {node : XmlNode} {size : Nat} {hex : Bool}
variable {content : Text} {modulus : Nat}

/-- The two characters of the prefix are tested, and either one keeps the hexadecimal reading. -/
def looksHex (body : Bytes) : Bool := !decide (body.getD 0 0 ≠ 48 ∧ body.getD 1 0 ≠ 120)

def readBody (body : Bytes) (hex : Bool) : Nat :=
  if hex && looksHex body then asciiStrHexToUint64 body else asciiStrDecimalToUint64 body

theorem readBody_prefixed (valid : ∀ c ∈ digits, (hexDigit c).isSome = true) :
    readBody (48 :: 120 :: digits) true = min (numberOf 16 hexDigit digits) (u64 - 1) :=
  asciiStrHexToUint64_prefixed valid

theorem looksHex_digits (valid : ∀ c ∈ digits, (decimalDigit c).isSome = true) :
    looksHex digits = true ↔ digits.head? = some 48 := by
  cases digits with
  | nil => decide
  | cons c rest =>
    have second : rest.getD 0 0 ≠ 120 := by
      cases rest with
      | nil => decide
      | cons next rest =>
        exact (@digit_plain _ false (valid next (by simp))).2.2.2.1
    rw [looksHex, Bool.not_eq_true', decide_eq_false_iff_not, head?_cons, Option.some.injEq]
    constructor
    · intro looks
      by_contra other
      exact looks ⟨other, second⟩
    · exact fun zero both => both.1 zero

theorem readBody_digits (valid : ∀ c ∈ digits, (decimalDigit c).isSome = true) :
    readBody digits hex = min (if hex = true ∧ digits.head? = some 48 then numberOf 16 hexDigit digits
      else numberOf 10 decimalDigit digits) (u64 - 1) := by
  simp only [readBody, Bool.and_eq_true, looksHex_digits valid]
  split
  · exact asciiStrHexToUint64_digits fun c member => hexDigit_of_decimalDigit (valid c member)
  · exact asciiStrDecimalToUint64_digits valid

theorem readBody_body (asked : numeral.hexadecimal = true → hex = true) :
    readBody numeral.body hex = min (numeral.readAs hex) (u64 - 1) := by
  have onlyDigits := numeral.onlyDigits
  unfold Numeral.body Numeral.readAs Numeral.number
  cases kind : numeral.hexadecimal with
  | true =>
    rw [kind] at onlyDigits
    rw [asked kind]
    refine (readBody_prefixed onlyDigits).trans ?_
    split <;> rfl
  | false =>
    rw [kind] at onlyDigits
    exact readBody_digits onlyDigits

/-- `PlistIntegerValue` on a text whose blanks are skipped. -/
theorem plistIntegerValue_eq {trimmed : Bytes}
    (integer : plistNodeCast node .integer = some node)
    (holds : xmlNodeContent node = some content) (blanks : skipBlanks content.value = trimmed) :
    plistIntegerValue node modulus hex =
      some ((if decide (trimmed.getD 0 0 = 45) then wrapSub u64 0 (readBody (trimmed.drop 1) hex)
        else readBody trimmed hex) % modulus) := by
  rw [plistIntegerValue, integer, Option.bind_some, holds, Option.map_some]
  simp only [blanks]
  by_cases minus : trimmed.getD 0 0 = 45
  · simp only [minus, decide_true, if_true]
    rfl
  · simp only [minus, decide_false, Bool.false_eq_true, if_false]
    rfl

theorem body_cons (numeral : Numeral) : ∃ c rest, numeral.body = c :: rest ∧
    c ≠ 32 ∧ c ≠ 9 ∧ c ≠ 45 ∧ c ≠ 120 := by
  have onlyDigits := numeral.onlyDigits
  unfold Numeral.body
  cases kind : numeral.hexadecimal with
  | true => exact ⟨48, 120 :: numeral.digits, rfl, by decide⟩
  | false =>
    obtain ⟨c, rest, digits⟩ := exists_cons_of_ne_nil numeral.nonempty
    have plain := digit_plain (onlyDigits c (by rw [digits]; exact mem_cons_self))
    exact ⟨c, rest, digits, plain.1, plain.2.1, plain.2.2.1, plain.2.2.2.1⟩

theorem readBody_plus {c : UInt8} {rest : Bytes} (notMark : c ≠ 120) :
    readBody (43 :: c :: rest) hex = 0 := by
  have looks : looksHex (43 :: c :: rest) = false := by
    have both : (43 : UInt8) ≠ 48 ∧ c ≠ 120 := ⟨by decide, notMark⟩
    rw [looksHex, getD_cons_zero, getD_cons_succ, getD_cons_zero, decide_eq_true both]
    rfl
  rw [readBody, looks, Bool.and_false]
  rfl

theorem plistIntegerValue_text (integer : plistNodeCast node .integer = some node)
    (holds : xmlNodeContent node = some content) (text : content.value = numeral.text)
    (asked : numeral.hexadecimal = true → hex = true) :
    plistIntegerValue node modulus hex = some ((match numeral.sign with
        | .unsigned => min (numeral.readAs hex) (u64 - 1)
        | .minus => wrapSub u64 0 (min (numeral.readAs hex) (u64 - 1))
        | .plus => 0) % modulus) := by
  obtain ⟨c, rest, body, notSpace, notTab, notMinus, notMark⟩ := body_cons numeral
  have read := readBody_body asked
  have skipped : skipBlanks content.value = skipBlanks (numeral.sign.text ++ numeral.body) := by
    rw [text, Numeral.text, skipBlanks_blanks numeral.onlyBlanks]
  cases sign : numeral.sign with
  | unsigned =>
    rw [sign, Sign.text, nil_append, body, skipBlanks_cons ⟨notSpace, notTab⟩, ← body] at skipped
    rw [plistIntegerValue_eq integer holds skipped, ← read, body, getD_cons_zero,
      decide_eq_false notMinus]
    rfl
  | minus =>
    rw [sign, Sign.text, singleton_append, skipBlanks_cons (by decide)] at skipped
    rw [plistIntegerValue_eq integer holds skipped, ← read]
    rfl
  | plus =>
    rw [sign, Sign.text, singleton_append, skipBlanks_cons (by decide)] at skipped
    rw [plistIntegerValue_eq integer holds skipped, body, readBody_plus notMark]
    rfl

theorem negate_mod {modulus number : Nat} (divides : modulus ∣ u64) (fits : number < u64) :
    wrapSub u64 0 number % modulus = (-(number : Int) % (modulus : Nat)).toNat := by
  have wraps : ((u64 - number : Nat) : Int) ≡ -(number : Int) [ZMOD u64] := by
    refine Int.modEq_iff_dvd.mpr ⟨-1, ?_⟩
    omega
  have negated : (wrapSub u64 0 number : Int) ≡ -(number : Int) [ZMOD modulus] := by
    rw [wrapSub, Nat.mod_eq_of_lt fits, zero_add, Int.natCast_mod]
    exact ((Int.mod_modEq _ _).trans wraps).of_dvd (Int.natCast_dvd_natCast.mpr divides)
  rw [← negated]
  rfl

theorem negate_congr {modulus left right : Nat} (positive : 0 < modulus) :
    (-(left : Int) % (modulus : Nat)).toNat = (-(right : Int) % (modulus : Nat)).toNat ↔
      left % modulus = right % modulus := by
  have above : ∀ value : Int, 0 ≤ value % (modulus : Nat) := fun value =>
    Int.emod_nonneg _ (Int.natCast_ne_zero.mpr (Nat.pos_iff_ne_zero.mp positive))
  rw [← Int.natCast_inj, Int.toNat_of_nonneg (above _), Int.toNat_of_nonneg (above _)]
  exact Int.neg_modEq_neg.trans Int.natCast_modEq_iff

/-- The value of the text is stored exactly if the number that is read agrees with it. -/
theorem plistIntegerValueOfSize_value (numeral : Numeral) {content : Text}
    (integer : plistNodeCast node .integer = some node)
    (holds : xmlNodeContent node = some content) (text : content.value = numeral.text)
    (width : size ∈ integerSizes) (asked : numeral.hexadecimal = true → hex = true) :
    plistIntegerValueOfSize node size hex = some (numeral.truncated size) ↔
      numeral.Agrees size hex := by
  rw [plistIntegerValueOfSize, if_pos width, plistIntegerValue_text integer holds text asked,
    Option.some.injEq, Numeral.truncated, Numeral.Agrees]
  have divides : 256 ^ size ∣ u64 := by
    have powers : ∀ size ∈ integerSizes, 256 ^ size ∣ u64 := by decide
    exact powers size width
  cases sign : numeral.sign with
  | unsigned => exact Iff.rfl
  | minus =>
    rw [negate_mod divides ((Nat.min_le_right _ _).trans_lt (by decide))]
    exact negate_congr (Nat.pow_pos (by decide))
  | plus => exact eq_comm

def decimalNumeral (digits : Bytes) (only : ∀ c ∈ digits, (decimalDigit c).isSome = true)
    (nonempty : digits ≠ []) : Numeral :=
  ⟨[], .unsigned, false, digits, forall_mem_nil _, only, nonempty⟩

theorem zeroOneTwoThree_digits : ∀ c ∈ ([48, 49, 50, 51] : Bytes), (decimalDigit c).isSome = true :=
  all_eq_true.mp (by decide)

def zeroOneTwoThree : Numeral :=
  decimalNumeral [48, 49, 50, 51] zeroOneTwoThree_digits (cons_ne_nil _ _)

theorem minusSeven_digits : ∀ c ∈ ([48, 48, 55] : Bytes), (digitOf false c).isSome = true :=
  all_eq_true.mp (by decide)

theorem minusSeven_blanks : ∀ c ∈ ([32, 9] : Bytes), c = 32 ∨ c = 9 := by simp

def minusSeven : Numeral where
  blanks := [32, 9]
  sign := .minus
  hexadecimal := false
  digits := [48, 48, 55]
  onlyBlanks := minusSeven_blanks
  onlyDigits := minusSeven_digits
  nonempty := cons_ne_nil _ _

def integerElement (numeral : Numeral) : XmlNode :=
  .mk (literal "integer") none (some ⟨numeral.text, .literal⟩) none []

theorem plistIntegerValueOfSize_minusSeven :
    plistIntegerValueOfSize (integerElement minusSeven) 4 true = some 0xFFFFFFF9 ∧
      (plistIntegerValueOfSize (integerElement minusSeven) 4 true = some (minusSeven.truncated 4) ↔
        minusSeven.Agrees 4 true) :=
  ⟨by decide, plistIntegerValueOfSize_value minusSeven rfl rfl rfl (by decide) (by decide)⟩

/-- Decimal text that begins with a zero is taken for hexadecimal text. -/
theorem plistIntegerValueOfSize_zeroOneTwoThree :
    zeroOneTwoThree.truncated 8 = 123 ∧
      plistIntegerValueOfSize (integerElement zeroOneTwoThree) 8 false = some 123 ∧
      plistIntegerValueOfSize (integerElement zeroOneTwoThree) 8 true = some 0x123 := by
  decide

end Values

end OpenCore.PlistInteger
