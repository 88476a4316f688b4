import OpenCore.BigNumMod
import Mathlib.Tactic.Linarith

/-!
The long division of `BigNumMod`. Between two passes `BigDiv` is the divisor times a power
of two and `ModTmp` is the remainder of the dividend by it or by its double, and it is as
long as `BigDiv` or one bit longer.
-/

namespace OpenCore.ModDivision

open WordArray BigNumPrimitives BigNumShifts BigNumMod List

variable {width : Nat}

section Words

def wordsFor (width bits : Nat) : Nat := (bits + (width - 1)) / width

theorem wordsFor_le_iff (wide : 0 < width) {bits count : Nat} :
    wordsFor width bits ≤ count ↔ bits ≤ width * count := by
  rw [wordsFor, Nat.div_le_iff_le_mul_add_pred wide]
  omega

theorem size_le_iff {number count : Nat} :
    Nat.size number ≤ width * count ↔ number < capacity width count := by
  rw [Nat.size_le, capacity_eq_two_pow]

theorem lt_capacity_wordsFor (wide : 0 < width) (number : Nat) :
    number < capacity width (wordsFor width (Nat.size number)) :=
  size_le_iff.mp ((wordsFor_le_iff wide).mp le_rfl)

theorem wordsFor_le_length (wide : 0 < width) (words : List (BitVec width)) :
    wordsFor width (Nat.size (value words)) ≤ words.length :=
  (wordsFor_le_iff wide).mpr (size_le_iff.mpr (value_lt words))

variable {words : List (BitVec width)}

theorem value_take_of_lt {count : Nat}
    (inside : count ≤ words.length) (bound : value words < capacity width count) :
    value (words.take count) = value words ∧ value (words.drop count) = 0 := by
  have high : value (words.drop count) = 0 := by
    rw [value_drop inside, Nat.div_eq_of_lt bound]
  have whole := value_take_drop count words inside
  rw [high, Nat.mul_zero, Nat.add_zero] at whole
  exact ⟨whole.symm, high⟩

theorem word_eq_zero_of_lt {index : Nat}
    (inside : index < words.length) (bound : value words < capacity width index) :
    words.getD index 0 = 0 := by
  have high := (value_take_of_lt inside.le bound).2
  rw [drop_eq_getElem_cons inside, value_cons] at high
  have zero : words[index].toNat = 0 := by omega
  rw [getD_eq_getElem _ _ inside]
  exact BitVec.eq_of_toNat_eq (by simpa using zero)

theorem mostSignificantWord_wordsFor (wide : 0 < width) {words : List (BitVec width)} {count : Nat}
    (positive : 0 < count) (inside : count ≤ words.length) (some : value (words.take count) ≠ 0) :
    bigNumMostSignificantWord words count + 1 =
      wordsFor width (Nat.size (value (words.take count))) := by
  have bits := bigNumSignificantBits_eq words positive inside
  obtain ⟨below, same, allZero⟩ := bigNumMostSignificantWord_spec words positive inside
  rw [bigNumSignificantBits, bigNumSignificantBitsWord_eq] at bits
  have upper : Nat.size (words.getD (bigNumMostSignificantWord words count) 0).toNat ≤ width :=
    Nat.size_le.mpr (BitVec.isLt _)
  have lower : 0 < Nat.size (words.getD (bigNumMostSignificantWord words count) 0).toNat := by
    rw [Nat.size_pos]
    by_contra zero
    have word : words.getD (bigNumMostSignificantWord words count) 0 = 0 :=
      BitVec.eq_of_toNat_eq (by simpa using zero)
    rw [allZero word] at bits word
    rw [word] at bits
    exact some (Nat.size_eq_zero.mp (by simpa using bits.symm))
  rw [← bits, wordsFor]
  generalize bigNumMostSignificantWord words count = index at lower upper
  generalize Nat.size (words.getD index 0).toNat = top at lower upper
  symm
  apply Nat.div_eq_of_lt_le
  · rw [Nat.succ_mul]
    omega
  · rw [Nat.succ_mul, Nat.succ_mul]
    omega

theorem mostSignificantWord_lt {count bound : Nat}
    (positive : 0 < count) (inside : count ≤ words.length) (room : 0 < bound)
    (fits : value words < capacity width bound) :
    bigNumMostSignificantWord words count < bound := by
  obtain ⟨below, _, allZero⟩ := bigNumMostSignificantWord_spec words positive inside
  by_contra beyond
  have word : words.getD (bigNumMostSignificantWord words count) 0 = 0 := by
    apply word_eq_zero_of_lt (by omega)
    refine lt_of_lt_of_le fits ?_
    rw [capacity_eq_two_pow, capacity_eq_two_pow]
    exact Nat.pow_le_pow_right (by decide) (Nat.mul_le_mul_left _ (by omega))
  have first := allZero word
  omega

theorem capacity_le_of_wordsFor (wide : 0 < width) {number count : Nat}
    (short : count < wordsFor width (Nat.size number)) : capacity width count ≤ number := by
  by_contra below
  have enough := (wordsFor_le_iff wide).mpr (size_le_iff.mpr (Nat.lt_of_not_le below))
  omega

theorem wordsFor_pos (wide : 0 < width) {number : Nat} (some : number ≠ 0) :
    0 < wordsFor width (Nat.size number) := by
  by_contra none
  have bound := (wordsFor_le_iff wide).mp (Nat.le_of_not_lt none)
  rw [Nat.mul_zero, Nat.le_zero, Nat.size_eq_zero] at bound
  exact some bound

theorem topWord_ne_zero (wide : 0 < width) (some : value words ≠ 0) :
    words.getD (wordsFor width (Nat.size (value words)) - 1) 0 ≠ 0 := by
  have positive := wordsFor_pos wide some
  have inside := wordsFor_le_length wide words
  have taken := (value_take_of_lt inside (lt_capacity_wordsFor wide _)).1
  have low := @capacity_le_of_wordsFor width wide (value words)
    (wordsFor width (Nat.size (value words)) - 1) (by omega)
  intro zero
  generalize wordsFor width (Nat.size (value words)) = count at *
  obtain ⟨top, rfl⟩ : ∃ top, count = top + 1 := ⟨count - 1, by omega⟩
  rw [Nat.add_sub_cancel] at zero low
  have bound := value_lt (words.take top)
  rw [length_take, min_eq_left (by omega)] at bound
  rw [value_take_succ words inside, zero, BitVec.ofNat_eq_ofNat, BitVec.toNat_ofNat, Nat.zero_mod,
    Nat.mul_zero, Nat.add_zero] at taken
  omega

theorem wordsFor_succ (wide : 0 < width) (bits : Nat) :
    wordsFor width (bits + 1) = wordsFor width bits + if bits % width = 0 then 1 else 0 := by
  have step : bits + 1 + (width - 1) = bits + (width - 1) + 1 := by omega
  have multiple : width ∣ bits + (width - 1) + 1 ↔ bits % width = 0 := by
    rw [show bits + (width - 1) + 1 = bits + width by omega, Nat.dvd_add_self_right,
      Nat.dvd_iff_mod_eq_zero]
  rw [wordsFor, wordsFor, step, Nat.succ_div]
  simp only [multiple]

end Words

section Quotient
variable {dividend divisor : Nat}

theorem quotientBit_iff (positive : 0 < divisor) :
    divisor ≤ dividend % (2 * divisor) ↔ dividend / divisor % 2 = 1 := by
  have split : dividend % (2 * divisor) = dividend % divisor + divisor * (dividend / divisor % 2) := by
    rw [Nat.mul_comm, Nat.mod_mul]
  have low := Nat.mod_lt dividend positive
  have bit := Nat.mod_lt (dividend / divisor) (show 2 > 0 by decide)
  rw [split]
  constructor
  · intro above
    by_contra clear
    have zero : dividend / divisor % 2 = 0 := by omega
    rw [zero] at above
    omega
  · intro set
    rw [set]
    omega

theorem double_mod_of_le (positive : 0 < divisor) (above : divisor ≤ dividend % (2 * divisor)) :
    dividend % (2 * divisor) - divisor = dividend % divisor := by
  have set := (quotientBit_iff positive).mp above
  rw [Nat.mul_comm, Nat.mod_mul, set]
  omega

theorem double_mod_of_lt (positive : 0 < divisor) (below : dividend % (2 * divisor) < divisor) :
    dividend % (2 * divisor) = dividend % divisor := by
  have clear : dividend / divisor % 2 = 0 := by
    have notSet := (@quotientBit_iff dividend divisor positive).not.mp (by omega)
    omega
  rw [Nat.mul_comm, Nat.mod_mul, clear]
  omega

/-- A remainder that is as long as a lower multiple of the divisor is its remainder by
that multiple or by its double. -/
theorem remainder_shifted {low delta remainder : Nat} (some : low ≠ 0)
    (left : dividend % (low * 2 ^ delta) = remainder) (length : Nat.size remainder = Nat.size low) :
    remainder = dividend % (2 * low) ∨ remainder = dividend % low := by
  subst left
  cases delta with
  | zero => exact .inr (by rw [Nat.pow_zero, Nat.mul_one])
  | succ delta =>
    left
    have multiple : 2 * low ∣ low * 2 ^ (delta + 1) := ⟨2 ^ delta, by rw [Nat.pow_succ]; ring⟩
    have short : dividend % (low * 2 ^ (delta + 1)) < 2 * low := by
      have upper := Nat.lt_size_self (dividend % (low * 2 ^ (delta + 1)))
      obtain ⟨top, topEq⟩ := Nat.exists_eq_succ_of_ne_zero (Nat.size_eq_zero.not.mpr some)
      have lower : 2 ^ top ≤ low := Nat.lt_size.mp (by omega)
      rw [length, topEq, Nat.pow_succ 2 top] at upper
      omega
    rw [← Nat.mod_mod_of_dvd dividend multiple, Nat.mod_eq_of_lt short]

end Quotient

structure ModInv (call : ModCall width) (dividend length : Nat) (state : ModState width) :
    Prop where
  modLength : state.modTmp.length = length
  divLength : state.bigDiv.length = length
  divValue : value state.bigDiv = value call.b * 2 ^ state.bigDivExp
  modValue : value state.modTmp = dividend % (2 * value state.bigDiv) ∨
    value state.modTmp = dividend % value state.bigDiv
  sigBitsDiv : state.sigBitsBigDiv = Nat.size (value state.bigDiv)
  sigWordsDiv : state.sigWordsBigDiv = wordsFor width state.sigBitsBigDiv
  bits : Nat.size (value state.modTmp) = state.sigBitsBigDiv ∨
    Nat.size (value state.modTmp) = state.sigBitsBigDiv + 1
  sigWordsMod : state.sigWordsModTmp = wordsFor width (Nat.size (value state.modTmp))

def Fits (sizes : Buffer → Nat) : Check → Prop
  | .assert holds => holds = true
  | .access buffer offset count => offset + count ≤ sizes buffer

def Safe (sizes : Buffer → Nat) (checks : List Check) : Prop := ∀ check ∈ checks, Fits sizes check

structure Room (sizes : Buffer → Nat) (call : ModCall width) (length : Nat) : Prop where
  modulus : call.bPointer.offset + call.b.length ≤ sizes call.bPointer.buffer
  modTmp : call.modPointer.offset + length ≤ sizes call.modPointer.buffer
  bigDiv : call.divPointer.offset + length ≤ sizes call.divPointer.buffer

variable {sizes : Buffer → Nat}

theorem safe_append {first second : List Check} :
    Safe sizes (first ++ second) ↔ Safe sizes first ∧ Safe sizes second := by
  simp only [Safe, mem_append]
  constructor
  · intro all
    exact ⟨fun check member => all check (.inl member), fun check member => all check (.inr member)⟩
  · rintro ⟨one, two⟩ check (member | member)
    · exact one check member
    · exact two check member

@[simp] theorem safe_nil : Safe sizes [] := by
  intro check member
  cases member

@[simp] theorem safe_cons {check : Check} {rest : List Check} :
    Safe sizes (check :: rest) ↔ Fits sizes check ∧ Safe sizes rest := by
  simp [Safe]

@[simp] theorem fits_assert {holds : Bool} :
    Fits sizes (.assert holds) ↔ holds = true := Iff.rfl

theorem fits_words {pointer : Pointer} {length first count : Nat}
    (room : pointer.offset + length ≤ sizes pointer.buffer) (inside : first + count ≤ length) :
    Fits sizes (pointer.words first count) := by
  simp only [Fits, Pointer.words]
  omega

section Pass
variable {call : ModCall width} {dividend length : Nat} {state : ModState width}
  {sizes : Buffer → Nat}

theorem ModInv.log (inv : ModInv call dividend length state) (checks : List Check) :
    ModInv call dividend length (state.log checks) :=
  ⟨inv.modLength, inv.divLength, inv.divValue, inv.modValue, inv.sigBitsDiv, inv.sigWordsDiv,
    inv.bits, inv.sigWordsMod⟩

variable (wide : 0 < width) (some : value call.b ≠ 0)
  (inv : ModInv call dividend length state)

include some inv in
theorem sizeDiv : Nat.size (value state.bigDiv) = Nat.size (value call.b) + state.bigDivExp := by
  have size := size_add_mul (Nat.two_pow_pos state.bigDivExp) some
  rw [inv.divValue, Nat.mul_comm, Nat.add_comm, ← size, Nat.zero_add]

include some inv in
theorem divPositive : 0 < value state.bigDiv := by
  rw [inv.divValue]
  positivity

include some inv in
theorem remainder_of_below (below : value state.modTmp < value state.bigDiv) :
    value state.modTmp = dividend % value state.bigDiv := by
  rcases inv.modValue with double | single
  · rw [double] at below ⊢
    exact double_mod_of_lt (divPositive some inv) below
  · exact single

include some inv in
theorem remainder_of_above (above : value state.bigDiv ≤ value state.modTmp) :
    value state.modTmp = dividend % (2 * value state.bigDiv) := by
  rcases inv.modValue with double | single
  · exact double
  · have low := Nat.mod_lt dividend (divPositive some inv)
    omega

include some inv in
theorem modTmp_lt : value state.modTmp < 2 * value state.bigDiv := by
  have positive := divPositive some inv
  rcases inv.modValue with double | single
  · rw [double]
    exact Nat.mod_lt _ (by omega)
  · have low := Nat.mod_lt dividend positive
    omega

include wide inv in
theorem divWords_le : state.sigWordsBigDiv ≤ length := by
  rw [inv.sigWordsDiv, inv.sigBitsDiv, ← inv.divLength]
  exact wordsFor_le_length wide _

include wide inv in
theorem modWords_le : state.sigWordsModTmp ≤ length := by
  rw [inv.sigWordsMod, ← inv.modLength]
  exact wordsFor_le_length wide _

include wide inv in
theorem modWords_eq : state.sigWordsModTmp = state.sigWordsBigDiv ∨
    state.sigWordsModTmp = state.sigWordsBigDiv + 1 := by
  rw [inv.sigWordsMod, inv.sigWordsDiv]
  rcases inv.bits with same | longer
  · exact .inl (by rw [same])
  · rw [longer, wordsFor_succ wide]
    split
    · exact .inr rfl
    · exact .inl rfl

include wide inv in
theorem modTaken : value (state.modTmp.take state.sigWordsModTmp) = value state.modTmp ∧
    value (state.modTmp.drop state.sigWordsModTmp) = 0 := by
  apply value_take_of_lt
  · rw [inv.modLength]
    exact modWords_le wide inv
  · rw [inv.sigWordsMod]
    exact lt_capacity_wordsFor wide _

include wide inv in
theorem divTaken {count : Nat} (enough : state.sigWordsBigDiv ≤ count) (inside : count ≤ length) :
    value (state.bigDiv.take count) = value state.bigDiv ∧ value (state.bigDiv.drop count) = 0 := by
  apply value_take_of_lt
  · rw [inv.divLength]
    exact inside
  · apply size_le_iff.mp
    apply (wordsFor_le_iff wide).mp
    rw [← inv.sigBitsDiv, ← inv.sigWordsDiv]
    exact enough

include some inv in
theorem modNonzero : value state.modTmp ≠ 0 := by
  have long : 0 < Nat.size (value state.bigDiv) := Nat.size_pos.mpr (divPositive some inv)
  rw [← inv.sigBitsDiv] at long
  intro zero
  have bits := inv.bits
  rw [zero, Nat.size_zero] at bits
  omega

include wide inv in
theorem modCompare_order : (modCompare call state).1 ≠ .lt ↔
    value state.bigDiv ≤ value state.modTmp := by
  by_cases longer : state.sigWordsModTmp > state.sigWordsBigDiv
  · have order : (modCompare call state).1 = .gt := by simp [modCompare, longer]
    have low : capacity width state.sigWordsBigDiv ≤ value state.modTmp := by
      apply capacity_le_of_wordsFor wide
      rw [← inv.sigWordsMod]
      exact longer
    have high : value state.bigDiv < capacity width state.sigWordsBigDiv := by
      rw [inv.sigWordsDiv, inv.sigBitsDiv]
      exact lt_capacity_wordsFor wide _
    rw [order]
    exact ⟨fun _ => by omega, fun _ => by decide⟩
  · have same : state.sigWordsModTmp = state.sigWordsBigDiv := by
      have lengths := modWords_eq wide inv
      omega
    have inside := divWords_le wide inv
    have order : (modCompare call state).1 =
        bigNumCmp state.modTmp state.bigDiv state.sigWordsBigDiv := by simp [modCompare, longer]
    have modTop := (modTaken wide inv).1
    rw [same] at modTop
    rw [order, bigNumCmp_eq (by rw [inv.modLength]; exact inside) (by rw [inv.divLength]; exact inside),
      modTop, (divTaken wide inv le_rfl inside).1, ne_eq, compare_lt_iff_lt, not_lt]

include wide some inv in
theorem modCompare_safe (room : Room sizes call length) :
    Safe sizes (modCompare call state).2 := by
  have lengths := modWords_eq wide inv
  have modInside := modWords_le wide inv
  have divInside := divWords_le wide inv
  have modPositive : 0 < state.sigWordsModTmp := by
    rw [inv.sigWordsMod]
    exact wordsFor_pos wide (modNonzero some inv)
  have top : state.modTmp.getD (state.sigWordsModTmp - 1) 0 ≠ 0 := by
    rw [inv.sigWordsMod]
    exact topWord_ne_zero wide (modNonzero some inv)
  unfold modCompare
  split
  · simp only [safe_cons, safe_nil, fits_assert, decide_eq_true_eq, and_true]
    exact ⟨lengths, fits_words room.modTmp (by omega), top⟩
  · simp only [safe_cons, safe_nil, fits_assert, decide_eq_true_eq, and_true]
    exact ⟨lengths, fits_words room.modTmp (by omega), fits_words room.bigDiv (by omega)⟩

structure Ended (call : ModCall width) (dividend length : Nat) (final : ModState width) : Prop where
  modLength : final.modTmp.length = length
  modValue : value final.modTmp = dividend % value call.b
  sigWords : 0 < final.sigWordsModTmp ∧ final.sigWordsModTmp ≤ length

include wide inv in
/-- With the exponent used up, `BigDiv` is the divisor. -/
theorem divisorChecks_safe (room : Room sizes call length) (last : state.bigDivExp = 0) :
    Safe sizes (divisorChecks call state) := by
  have divValue := inv.divValue
  rw [last, Nat.pow_zero, Nat.mul_one] at divValue
  have divInside := divWords_le wide inv
  have short : state.sigWordsBigDiv ≤ call.b.length := by
    rw [inv.sigWordsDiv, inv.sigBitsDiv, divValue]
    exact wordsFor_le_length wide _
  have taken : value (call.b.take state.sigWordsBigDiv) = value call.b := by
    apply (value_take_of_lt short _).1
    rw [inv.sigWordsDiv, inv.sigBitsDiv, divValue]
    exact lt_capacity_wordsFor wide _
  have same : bigNumCmp state.bigDiv call.b state.sigWordsBigDiv = .eq := by
    rw [bigNumCmp_eq (by rw [inv.divLength]; exact divInside) short,
      (divTaken wide inv le_rfl divInside).1, taken, divValue, compare_eq_iff_eq]
  simp only [divisorChecks, safe_cons, safe_nil, fits_assert, decide_eq_true_eq, and_true]
  exact ⟨fits_words room.bigDiv (by omega), fits_words room.modulus (by omega), same⟩

include wide some inv in
theorem lengthCheck_fits : Fits sizes (lengthCheck state) := by
  have inside := divWords_le wide inv
  have positive : 0 < state.sigWordsBigDiv := by
    rw [inv.sigWordsDiv, inv.sigBitsDiv]
    exact wordsFor_pos wide (divPositive some inv).ne'
  have size := bigNumSignificantBits_eq state.bigDiv positive (by rw [inv.divLength]; exact inside)
  rw [(divTaken wide inv le_rfl inside).1, ← inv.sigBitsDiv] at size
  simp only [lengthCheck, fits_assert, decide_eq_true_eq]
  exact size.symm

/-- The state of a pass that moves `BigDiv` down by a bit, without its log. -/
def halved (state : ModState width) : ModState width :=
  { state with
    bigDiv := bigNumRightShiftBitsSmall 1 (state.bigDiv.take state.sigWordsBigDiv) ++
      state.bigDiv.drop state.sigWordsBigDiv
    sigBitsBigDiv := state.sigBitsBigDiv - 1
    bigDivExp := state.bigDivExp - 1
    sigWordsBigDiv := if (state.sigBitsBigDiv - 1) % width = 0 then state.sigWordsBigDiv - 1
      else state.sigWordsBigDiv }

def halveChecks (call : ModCall width) (state : ModState width) : List Check :=
  rightShiftBitsSmallChecks width call.divPointer state.sigWordsBigDiv 1 ++
    (if (state.sigBitsBigDiv - 1) % width = 0 then
      [call.divPointer.words (state.sigWordsBigDiv - 1) 1,
        .assert ((halved state).bigDiv.getD (state.sigWordsBigDiv - 1) 0 = 0)] else []) ++
    [lengthCheck (halved state)]

theorem modHalve_eq (more : 0 < state.bigDivExp) :
    modHalve call state = ((halved state).log (halveChecks call state), false) := by
  rw [modHalve, if_neg more.ne']
  by_cases aligned : (state.sigBitsBigDiv - 1) % width = 0
  · simp [ModState.log, halveChecks, halved, aligned, lengthCheck]
  · simp [ModState.log, halveChecks, halved, aligned, lengthCheck]

include wide some inv in
theorem halved_inv (more : 0 < state.bigDivExp) (below : value state.modTmp < value state.bigDiv)
    (remainder : value state.modTmp = dividend % value state.bigDiv) :
    ModInv call dividend length (halved state) := by
  have inside := divWords_le wide inv
  obtain ⟨taken, rest⟩ := divTaken wide inv le_rfl inside
  have size := sizeDiv some inv
  have half : value (halved state).bigDiv = value call.b * 2 ^ (state.bigDivExp - 1) := by
    have power : 2 ^ state.bigDivExp = 2 ^ (state.bigDivExp - 1) * 2 := by
      rw [← Nat.pow_succ, Nat.succ_eq_add_one, Nat.sub_add_cancel more]
    simp only [halved, value_append, bigNumRightShiftBitsSmall_value wide, taken, rest,
      Nat.mul_zero, Nat.add_zero, Nat.pow_one, inv.divValue, power]
    rw [← Nat.mul_assoc, Nat.mul_div_cancel _ (by decide)]
  have double : value state.bigDiv = 2 * value (halved state).bigDiv := by
    rw [half, inv.divValue]
    obtain ⟨less, lessEq⟩ : ∃ less, state.bigDivExp = less + 1 := ⟨state.bigDivExp - 1, by omega⟩
    rw [lessEq, Nat.add_sub_cancel, Nat.pow_succ]
    ring
  have halfSome : value (halved state).bigDiv ≠ 0 := by
    have positive := divPositive some inv
    omega
  have halfSize : Nat.size (value (halved state).bigDiv) = state.sigBitsBigDiv - 1 := by
    have doubled := size_add_mul (show 0 < 2 ^ 1 by decide) halfSome
    rw [Nat.zero_add, Nat.pow_one, ← double, ← inv.sigBitsDiv] at doubled
    omega
  have long : 0 < state.sigBitsBigDiv := by
    rw [inv.sigBitsDiv, size]
    omega
  refine ⟨inv.modLength, ?_, half, .inl (by rw [← double]; exact remainder), halfSize.symm, ?_, ?_,
    inv.sigWordsMod⟩
  · simp only [halved, length_append, bigNumRightShiftBitsSmall_length, length_take,
      length_drop, inv.divLength]
    omega
  · have words := wordsFor_succ wide (state.sigBitsBigDiv - 1)
    rw [Nat.sub_add_cancel long, ← inv.sigWordsDiv] at words
    simp only [halved]
    split at words
    · rename_i aligned
      rw [if_pos aligned, words, Nat.add_sub_cancel]
    · rename_i unaligned
      rw [if_neg unaligned, words, Nat.add_zero]
  · right
    have short := Nat.size_le_size below.le
    have bits := inv.bits
    simp only [halved]
    rw [← inv.sigBitsDiv] at short
    omega

include wide some inv in
theorem halveChecks_safe (bit : 1 < width) (room : Room sizes call length)
    (next : ModInv call dividend length (halved state)) :
    Safe sizes (halveChecks call state) := by
  have inside := divWords_le wide inv
  have positive : 0 < state.sigWordsBigDiv := by
    rw [inv.sigWordsDiv, inv.sigBitsDiv]
    exact wordsFor_pos wide (divPositive some inv).ne'
  have stripped : Safe sizes (if (state.sigBitsBigDiv - 1) % width = 0 then
      [call.divPointer.words (state.sigWordsBigDiv - 1) 1,
        .assert ((halved state).bigDiv.getD (state.sigWordsBigDiv - 1) 0 = 0)] else []) := by
    split
    · rename_i aligned
      have words : (halved state).sigWordsBigDiv = state.sigWordsBigDiv - 1 := if_pos aligned
      have bound := lt_capacity_wordsFor wide (value (halved state).bigDiv)
      rw [← next.sigBitsDiv, ← next.sigWordsDiv, words] at bound
      have zero := word_eq_zero_of_lt (by rw [next.divLength]; omega) bound
      simp only [safe_cons, safe_nil, fits_assert, decide_eq_true_eq, and_true]
      exact ⟨fits_words room.bigDiv (by omega), zero⟩
    · exact safe_nil
  simp only [halveChecks, rightShiftBitsSmallChecks, safe_append, safe_cons, safe_nil, fits_assert,
    decide_eq_true_eq, and_true]
  exact ⟨⟨⟨positive, Nat.one_pos, bit, fits_words room.bigDiv (by omega)⟩, stripped⟩,
    lengthCheck_fits wide some next⟩

include wide some inv in
/-- A pass that only moves `BigDiv` down. -/
theorem modHalve_spec (bit : 1 < width) (room : Room sizes call length)
    (below : value state.modTmp < value state.bigDiv) :
    (∃ final, modHalve call state = (final, true) ∧ state.bigDivExp = 0 ∧
      Ended call dividend length final ∧ (Safe sizes final.checks ↔ Safe sizes state.checks)) ∨
    (∃ after, modHalve call state = (after, false) ∧ 0 < state.bigDivExp ∧
      ModInv call dividend length after ∧ after.bigDivExp = state.bigDivExp - 1 ∧
      after.modTmp = state.modTmp ∧ (Safe sizes after.checks ↔ Safe sizes state.checks)) := by
  have modPositive : 0 < state.sigWordsModTmp := by
    rw [inv.sigWordsMod]
    exact wordsFor_pos wide (modNonzero some inv)
  have remainder := remainder_of_below some inv below
  by_cases last : state.bigDivExp = 0
  · left
    refine ⟨state.log (divisorChecks call state), by simp [modHalve, last], last,
      ⟨inv.modLength, ?_, modPositive, modWords_le wide (inv.log _)⟩, ?_⟩
    · have divValue := inv.divValue
      rw [last, Nat.pow_zero, Nat.mul_one] at divValue
      rw [← divValue]
      exact remainder
    · simp only [ModState.log, safe_append]
      exact and_iff_left (divisorChecks_safe wide inv room last)
  · right
    have more : 0 < state.bigDivExp := Nat.pos_of_ne_zero last
    have next := halved_inv wide some inv more below remainder
    refine ⟨_, modHalve_eq more, more, next.log _, rfl, rfl, ?_⟩
    simp only [ModState.log, halved, safe_append]
    exact and_iff_left (halveChecks_safe wide some inv bit room next)

/-- The state of a pass that subtracts, before `BigDiv` is moved down and without its log. -/
def subtracted (state : ModState width) : ModState width :=
  { state with
    modTmp := bigNumSub (state.modTmp.take state.sigWordsModTmp)
      (state.bigDiv.take state.sigWordsModTmp) ++ state.modTmp.drop state.sigWordsModTmp }

include wide some inv in
theorem subtracted_modTmp (above : value state.bigDiv ≤ value state.modTmp) :
    (subtracted state).modTmp.length = length ∧
      value (subtracted state).modTmp = dividend % value state.bigDiv ∧
      value ((subtracted state).modTmp.take state.sigWordsModTmp) =
        dividend % value state.bigDiv := by
  have inside := modWords_le wide inv
  have enough : state.sigWordsBigDiv ≤ state.sigWordsModTmp := by
    have lengths := modWords_eq wide inv
    omega
  obtain ⟨modTop, modRest⟩ := modTaken wide inv
  obtain ⟨divTop, _⟩ := divTaken wide inv enough inside
  have lengths : (state.modTmp.take state.sigWordsModTmp).length =
      (state.bigDiv.take state.sigWordsModTmp).length := by
    rw [length_take, length_take, inv.modLength, inv.divLength]
  have difference := bigNumSub_value wide lengths (by rw [modTop, divTop]; exact above)
  have count : (bigNumSub (state.modTmp.take state.sigWordsModTmp)
      (state.bigDiv.take state.sigWordsModTmp)).length = state.sigWordsModTmp := by
    rw [bigNumSub_length lengths, length_take, inv.modLength, min_eq_left inside]
  have remainder : value state.modTmp - value state.bigDiv = dividend % value state.bigDiv := by
    have double := remainder_of_above some inv above
    rw [double] at above ⊢
    exact double_mod_of_le (divPositive some inv) above
  rw [modTop, divTop, remainder] at difference
  refine ⟨?_, ?_, ?_⟩
  · rw [subtracted, length_append, count, length_drop, inv.modLength]
    omega
  · rw [subtracted, value_append, modRest, Nat.mul_zero, Nat.add_zero, difference]
  · rw [subtracted, take_left' count, difference]

def shiftedDown (state : ModState width) (sigBits : Nat) : ModState width :=
  { subtracted state with
    sigWordsModTmp := bigNumMostSignificantWord (subtracted state).modTmp state.sigWordsModTmp + 1
    bigDiv := bigNumRightShift (state.bigDiv.take state.sigWordsBigDiv)
      (state.sigBitsBigDiv - sigBits) ++ state.bigDiv.drop state.sigWordsBigDiv
    sigWordsBigDiv := (sigBits + (width - 1)) / width
    sigBitsBigDiv := sigBits
    bigDivExp := state.bigDivExp - (state.sigBitsBigDiv - sigBits) }

include wide some inv in
theorem shiftedDown_inv (above : value state.bigDiv ≤ value state.modTmp)
    (long : Nat.size (value call.b) ≤ Nat.size (dividend % value state.bigDiv)) :
    ModInv call dividend length
      (shiftedDown state (Nat.size (dividend % value state.bigDiv))) := by
  obtain ⟨modLength, modValue, modTop⟩ := subtracted_modTmp wide some inv above
  have positive := divPositive some inv
  have size := sizeDiv some inv
  have low := Nat.mod_lt dividend positive
  have short := Nat.size_le_size low.le
  have bits := inv.sigBitsDiv
  have inside := divWords_le wide inv
  obtain ⟨taken, rest⟩ := divTaken wide inv le_rfl inside
  have divisorSize : 0 < Nat.size (value call.b) := Nat.size_pos.mpr (Nat.pos_of_ne_zero some)
  generalize remainderEq : dividend % value state.bigDiv = remainder at *
  generalize deltaEq : state.sigBitsBigDiv - Nat.size remainder = delta
  have deltaLe : delta ≤ state.bigDivExp := by omega
  have divLength : (state.bigDiv.take state.sigWordsBigDiv).length = state.sigWordsBigDiv := by
    rw [length_take, inv.divLength, min_eq_left inside]
  have shiftInside : delta / width ≤ (state.bigDiv.take state.sigWordsBigDiv).length := by
    rw [divLength, inv.sigWordsDiv]
    apply Nat.div_le_of_le_mul
    exact le_trans (by omega) ((wordsFor_le_iff wide).mp le_rfl)
  have divValue : value (shiftedDown state (Nat.size remainder)).bigDiv =
      value call.b * 2 ^ (state.bigDivExp - delta) := by
    have power : 2 ^ state.bigDivExp = 2 ^ (state.bigDivExp - delta) * 2 ^ delta := by
      rw [← Nat.pow_add, Nat.sub_add_cancel deltaLe]
    simp only [shiftedDown, deltaEq, value_append, bigNumRightShift_value wide shiftInside, taken,
      rest, Nat.mul_zero, Nat.add_zero, inv.divValue, power]
    rw [← Nat.mul_assoc, Nat.mul_div_cancel _ (Nat.two_pow_pos delta)]
  have divSize : Nat.size (value (shiftedDown state (Nat.size remainder)).bigDiv) =
      Nat.size remainder := by
    have scaled := size_add_mul (Nat.two_pow_pos (state.bigDivExp - delta)) some
    rw [Nat.zero_add, Nat.mul_comm, ← divValue] at scaled
    omega
  have whole : value state.bigDiv =
      value (shiftedDown state (Nat.size remainder)).bigDiv * 2 ^ delta := by
    rw [divValue, inv.divValue, Nat.mul_assoc, ← Nat.pow_add, Nat.sub_add_cancel deltaLe]
  refine ⟨modLength, ?_, ?_, ?_, divSize.symm, rfl, ?_, ?_⟩
  · simp only [shiftedDown, deltaEq, length_append, bigNumRightShift_length shiftInside,
      divLength, length_drop, inv.divLength]
    omega
  · simpa only [shiftedDown, deltaEq] using divValue
  · rw [show (shiftedDown state (Nat.size remainder)).modTmp = (subtracted state).modTmp from rfl,
      modValue]
    have nonzero : value (shiftedDown state (Nat.size remainder)).bigDiv ≠ 0 := by
      intro zero
      rw [zero, Nat.zero_mul] at whole
      omega
    rw [whole] at remainderEq
    exact remainder_shifted nonzero remainderEq divSize.symm
  · left
    simp only [shiftedDown]
    rw [modValue]
  · have some' : value ((subtracted state).modTmp.take state.sigWordsModTmp) ≠ 0 := by
      rw [modTop]
      intro zero
      rw [zero, Nat.size_zero] at long
      omega
    have scan := @mostSignificantWord_wordsFor width wide _ state.sigWordsModTmp ?_ ?_ some'
    · simp only [shiftedDown]
      rw [scan, modTop, modValue]
    · rw [inv.sigWordsMod]
      exact wordsFor_pos wide (modNonzero some inv)
    · rw [modLength]
      exact modWords_le wide inv

def subtractChecks (call : ModCall width) (state : ModState width) : List Check :=
  [call.modPointer.words 0 state.sigWordsModTmp, call.divPointer.words 0 state.sigWordsModTmp]

def measureChecks (call : ModCall width) (state : ModState width) : List Check :=
  let modTmp := (subtracted state).modTmp
  let sigBits := bigNumSignificantBits modTmp state.sigWordsModTmp
  [call.modPointer.words 0 state.sigWordsModTmp,
    .assert (sigBits = bigNumSignificantBits modTmp
      (bigNumMostSignificantWord modTmp state.sigWordsModTmp + 1)),
    .assert (sigBits ≤ state.sigBitsBigDiv)]

theorem modReduce_eq (call : ModCall width) (state : ModState width) :
    modReduce call state =
      let sigBits := bigNumSignificantBits (subtracted state).modTmp state.sigWordsModTmp
      let delta := state.sigBitsBigDiv - sigBits
      if state.bigDivExp = 0 then
        ((subtracted state).log (subtractChecks call state ++ divisorChecks call (subtracted state)),
          true)
      else if delta > state.bigDivExp then
        ({ subtracted state with
            sigWordsModTmp := bigNumMostSignificantWord (subtracted state).modTmp
              state.sigWordsModTmp + 1 }.log
          (subtractChecks call state ++ measureChecks call state), true)
      else
        ((shiftedDown state sigBits).log
          (subtractChecks call state ++ measureChecks call state ++
            rightShiftChecks width call.divPointer state.sigWordsBigDiv call.divPointer
              state.sigWordsBigDiv delta ++ [lengthCheck (shiftedDown state sigBits)]), false) := by
  rw [modReduce]
  simp only [ModState.log, append_assoc]
  rfl

theorem rightShiftChecks_safe_iff (wide : 0 < width) {pointer : Pointer} {words length exponent : Nat}
    (room : pointer.offset + length ≤ sizes pointer.buffer) (inside : words ≤ length)
    (shorter : exponent / width < words) :
    Safe sizes (rightShiftChecks width pointer words pointer words exponent) ↔
      exponent < width := by
  rw [← Nat.div_eq_zero_iff_lt wide, rightShiftChecks]
  have inWord := Nat.mod_lt exponent wide
  generalize exponent / width = numWords at *
  have positive : 0 < words := by omega
  simp only [safe_append, safe_cons, safe_nil, fits_assert, decide_eq_true_eq, and_true]
  by_cases aligned : exponent % width = 0
  · rw [if_neg (not_not.mpr aligned)]
    simp only [rightShiftWordsChecks, safe_cons, safe_nil, fits_assert, decide_eq_true_eq, and_true]
    constructor
    · rintro ⟨_, _, _, _, room', _⟩
      omega
    · intro zero
      exact ⟨⟨positive, positive⟩, positive, positive, shorter, by omega,
        fits_words room (by omega), fits_words room (by omega), fits_words room (by omega)⟩
  · rw [if_pos aligned]
    simp only [rightShiftWordsAndBitsChecks, safe_cons, safe_nil, fits_assert, decide_eq_true_eq,
      and_true]
    constructor
    · rintro ⟨_, _, _, _, _, _, room', _⟩
      omega
    · intro zero
      exact ⟨⟨positive, positive⟩, positive, positive, by omega, Nat.pos_of_ne_zero aligned,
        inWord, by omega, fits_words room (by omega), fits_words room (by omega),
        fits_words room (by omega)⟩

include wide inv in
theorem subtractChecks_safe (room : Room sizes call length) :
    Safe sizes (subtractChecks call state) := by
  have inside := modWords_le wide inv
  simp only [subtractChecks, safe_cons, safe_nil, and_true]
  exact ⟨fits_words room.modTmp (by omega), fits_words room.bigDiv (by omega)⟩

include wide some inv in
theorem modReduce_spec (room : Room sizes call length)
    (above : value state.bigDiv ≤ value state.modTmp) :
    (∃ final, modReduce call state = (final, true) ∧ (state.bigDivExp = 0 ∨
        Nat.size (dividend % value state.bigDiv) < Nat.size (value call.b)) ∧
      Ended call dividend length final ∧ (Safe sizes final.checks ↔ Safe sizes state.checks)) ∨
    (∃ after, modReduce call state = (after, false) ∧ 0 < state.bigDivExp ∧
      Nat.size (value call.b) ≤ Nat.size (dividend % value state.bigDiv) ∧
      ModInv call dividend length after ∧
      after.bigDivExp = Nat.size (dividend % value state.bigDiv) - Nat.size (value call.b) ∧
      value after.modTmp = dividend % value state.bigDiv ∧
      (Safe sizes after.checks ↔ Safe sizes state.checks ∧
        Nat.size (value call.b) + state.bigDivExp <
          Nat.size (dividend % value state.bigDiv) + width)) := by
  obtain ⟨modLength, modValue, modTop⟩ := subtracted_modTmp wide some inv above
  have modInside := modWords_le wide inv
  have divInside := divWords_le wide inv
  have modPositive : 0 < state.sigWordsModTmp := by
    rw [inv.sigWordsMod]
    exact wordsFor_pos wide (modNonzero some inv)
  have positive := divPositive some inv
  have size := sizeDiv some inv
  have bits := inv.sigBitsDiv
  have short := Nat.size_le_size (Nat.mod_lt dividend positive).le
  have sigBits := bigNumSignificantBits_eq (subtracted state).modTmp modPositive
    (by rw [modLength]; exact modInside)
  rw [modTop] at sigBits
  have measured : Safe sizes (measureChecks call state) := by
    obtain ⟨below, same, _⟩ := bigNumMostSignificantWord_spec (subtracted state).modTmp modPositive
      (by rw [modLength]; exact modInside)
    have again := bigNumSignificantBits_eq (subtracted state).modTmp (Nat.succ_pos
      (bigNumMostSignificantWord (subtracted state).modTmp state.sigWordsModTmp))
      (by rw [modLength]; omega)
    rw [← same, modTop] at again
    simp only [measureChecks, safe_cons, safe_nil, fits_assert, decide_eq_true_eq, and_true]
    refine ⟨fits_words room.modTmp (by omega), sigBits.trans again.symm, ?_⟩
    rw [sigBits, bits]
    exact short
  have subtractSafe := subtractChecks_safe wide inv room
  rw [modReduce_eq, sigBits]
  by_cases last : state.bigDivExp = 0
  · left
    have divValue := inv.divValue
    rw [last, Nat.pow_zero, Nat.mul_one] at divValue
    have divisor := divisorChecks_safe wide inv room last
    refine ⟨_, if_pos last, .inl last, ⟨modLength, ?_, modPositive, modInside⟩, ?_⟩
    · rw [← divValue]
      exact modValue
    · simp only [ModState.log, subtracted, safe_append]
      exact and_iff_left ⟨subtractSafe, divisor⟩
  · rw [if_neg last]
    by_cases lost : state.sigBitsBigDiv - Nat.size (dividend % value state.bigDiv) >
        state.bigDivExp
    · left
      have small : Nat.size (dividend % value state.bigDiv) < Nat.size (value call.b) := by omega
      obtain ⟨below, _, _⟩ := bigNumMostSignificantWord_spec (subtracted state).modTmp modPositive
        (by rw [modLength]; exact modInside)
      refine ⟨_, if_pos lost, .inr small, ⟨modLength, ?_, Nat.succ_pos _, ?_⟩, ?_⟩
      · -- A remainder shorter than the divisor is the remainder by it.
        have less : dividend % value state.bigDiv < value call.b := by
          by_contra more
          have order := Nat.size_le_size (Nat.le_of_not_lt more)
          omega
        have multiple : value call.b ∣ value state.bigDiv := ⟨2 ^ state.bigDivExp, inv.divValue⟩
        have reduced := Nat.mod_mod_of_dvd dividend multiple
        rw [Nat.mod_eq_of_lt less] at reduced
        exact modValue.trans reduced
      · exact le_trans below modInside
      · simp only [ModState.log, subtracted, safe_append]
        exact and_iff_left ⟨subtractSafe, measured⟩
    · right
      have long : Nat.size (value call.b) ≤ Nat.size (dividend % value state.bigDiv) := by omega
      have next := shiftedDown_inv wide some inv above long
      have divisorSize : 0 < Nat.size (value call.b) := Nat.size_pos.mpr (Nat.pos_of_ne_zero some)
      have within : state.sigBitsBigDiv ≤ width * state.sigWordsBigDiv := by
        rw [inv.sigWordsDiv]
        exact (wordsFor_le_iff wide).mp le_rfl
      have shift := rightShiftChecks_safe_iff wide room.bigDiv divInside
        (Nat.div_lt_of_lt_mul (show state.sigBitsBigDiv -
          Nat.size (dividend % value state.bigDiv) < width * state.sigWordsBigDiv by omega))
      refine ⟨_, if_neg lost, Nat.pos_of_ne_zero last, long, next.log _, ?_, modValue, ?_⟩
      · simp only [ModState.log, shiftedDown]
        omega
      · have checked : Fits sizes _ := lengthCheck_fits wide some next
        simp only [ModState.log, safe_append, safe_cons, safe_nil, and_true, shift]
        have lengthOfShift : state.sigBitsBigDiv - Nat.size (dividend % value state.bigDiv) < width ↔
            Nat.size (value call.b) + state.bigDivExp <
              Nat.size (dividend % value state.bigDiv) + width := by omega
        rw [lengthOfShift]
        constructor
        · rintro ⟨before, ⟨⟨_, _⟩, inWord⟩, _⟩
          exact ⟨before, inWord⟩
        · rintro ⟨before, inWord⟩
          exact ⟨before, ⟨⟨subtractSafe, measured⟩, inWord⟩, checked⟩

end Pass

section Loop

/-- At the bit `exponent` of the quotient: a remainder that is not yet shorter than the
divisor is less than a word shorter than what was subtracted. -/
def GapWithinWord (width divisor dividend exponent : Nat) : Prop :=
  dividend / (divisor * 2 ^ exponent) % 2 = 1 →
    Nat.size divisor ≤ Nat.size (dividend % (divisor * 2 ^ exponent)) →
      Nat.size divisor + exponent < Nat.size (dividend % (divisor * 2 ^ exponent)) + width

def GapsLeft (call : ModCall width) (dividend : Nat) (state : ModState width) : Prop :=
  ∀ exponent, 0 < exponent →
    (exponent < state.bigDivExp ∨
      exponent = state.bigDivExp ∧ value state.bigDiv ≤ value state.modTmp) →
    GapWithinWord width (value call.b) dividend exponent

theorem gap_of_small {divisor dividend upper exponent : Nat} (some : divisor ≠ 0)
    (lower : exponent < upper) (small : dividend % (divisor * 2 ^ upper) < divisor * 2 ^ exponent) :
    GapWithinWord width divisor dividend exponent := by
  intro set
  have positive : 0 < divisor * 2 ^ exponent := by positivity
  have above := (quotientBit_iff positive).mpr set
  have multiple : 2 * (divisor * 2 ^ exponent) ∣ divisor * 2 ^ upper := by
    refine ⟨2 ^ (upper - exponent - 1), ?_⟩
    rw [show upper = exponent + 1 + (upper - exponent - 1) by omega, Nat.pow_add, Nat.pow_succ,
      show exponent + 1 + (upper - exponent - 1) - exponent - 1 = upper - exponent - 1 by omega]
    ring
  have reduced := Nat.mod_mod_of_dvd dividend multiple
  have bound := Nat.mod_le (dividend % (divisor * 2 ^ upper)) (2 * (divisor * 2 ^ exponent))
  omega

def passesLeft (state : ModState width) : Nat :=
  2 * state.bigDivExp + if value state.bigDiv ≤ value state.modTmp then 1 else 0

variable {call : ModCall width} {dividend length : Nat} {state : ModState width}
  {sizes : Buffer → Nat}

theorem modPass_reduce (wide : 0 < width) (inv : ModInv call dividend length state)
    (above : value state.bigDiv ≤ value state.modTmp) :
    modPass call state = modReduce call (state.log (modCompare call state).2) := by
  have order := (modCompare_order wide inv).mpr above
  simp only [modPass]
  rw [if_pos order]

theorem modPass_halve (wide : 0 < width) (inv : ModInv call dividend length state)
    (below : value state.modTmp < value state.bigDiv) :
    modPass call state = modHalve call (state.log (modCompare call state).2) := by
  have order : ¬ (modCompare call state).1 ≠ .lt := by
    rw [modCompare_order wide inv]
    omega
  simp only [modPass]
  rw [if_neg order]

theorem gapsLeft_reduce_ended (some : value call.b ≠ 0) (inv : ModInv call dividend length state)
    (ended : state.bigDivExp = 0 ∨
      Nat.size (dividend % value state.bigDiv) < Nat.size (value call.b)) :
    GapsLeft call dividend state := by
  intro exponent positive reached
  rcases ended with last | short
  · omega
  · rw [inv.divValue] at short
    rcases reached with lower | ⟨rfl, _⟩
    · apply gap_of_small some lower
      have less : dividend % (value call.b * 2 ^ state.bigDivExp) < value call.b := by
        by_contra more
        have order := Nat.size_le_size (Nat.le_of_not_lt more)
        omega
      exact lt_of_lt_of_le less (Nat.le_mul_of_pos_right _ (Nat.two_pow_pos _))
    · intro _ long
      omega

variable {after : ModState width}

section

variable (some : value call.b ≠ 0) (inv : ModInv call dividend length state)
  (next : ModInv call dividend length after)
include some inv next

/-- After a subtraction `BigDiv` can only fit again once it was moved down. -/
theorem exponent_lt_of_fits (remainder : value after.modTmp = dividend % value state.bigDiv)
    (fits : value after.bigDiv ≤ value after.modTmp)
    (ordered : after.bigDivExp ≤ state.bigDivExp) : after.bigDivExp < state.bigDivExp := by
  have low := Nat.mod_lt dividend (divPositive some inv)
  by_contra same
  have equal : after.bigDivExp = state.bigDivExp := by omega
  rw [next.divValue, equal, ← inv.divValue, remainder] at fits
  omega

theorem gapsLeft_reduce
    (above : value state.bigDiv ≤ value state.modTmp) (more : 0 < state.bigDivExp)
    (long : Nat.size (value call.b) ≤ Nat.size (dividend % value state.bigDiv))
    (exponentEq : after.bigDivExp =
      Nat.size (dividend % value state.bigDiv) - Nat.size (value call.b))
    (remainder : value after.modTmp = dividend % value state.bigDiv) :
    GapsLeft call dividend state ↔ Nat.size (value call.b) + state.bigDivExp <
        Nat.size (dividend % value state.bigDiv) + width ∧ GapsLeft call dividend after := by
  have low := Nat.mod_lt dividend (divPositive some inv)
  have size := sizeDiv some inv
  have short := Nat.size_le_size low.le
  have set : dividend / value state.bigDiv % 2 = 1 := by
    apply (quotientBit_iff (divPositive some inv)).mp
    rw [← remainder_of_above some inv above]
    exact above
  constructor
  · intro gaps
    refine ⟨?_, ?_⟩
    · have gap := gaps state.bigDivExp more (.inr ⟨rfl, above⟩)
      unfold GapWithinWord at gap
      rw [← inv.divValue] at gap
      exact gap set long
    · intro exponent positive reached
      apply gaps exponent positive
      rcases reached with lower | ⟨rfl, fits⟩
      · exact .inl (by omega)
      · exact .inl (exponent_lt_of_fits some inv next remainder fits (by omega))
  · rintro ⟨inWord, gaps⟩ exponent positive reached
    rcases reached with lower | ⟨rfl, _⟩
    · by_cases left : exponent < after.bigDivExp ∨
          exponent = after.bigDivExp ∧ value after.bigDiv ≤ value after.modTmp
      · exact gaps exponent positive left
      · -- Between the two exponents the quotient has no bit set.
        apply gap_of_small some lower
        rw [← inv.divValue, ← remainder]
        by_cases same : exponent = after.bigDivExp
        · rw [same, ← next.divValue]
          by_contra fits
          exact left (.inr ⟨same, Nat.le_of_not_lt fits⟩)
        · have room := modTmp_lt some next
          rw [next.divValue] at room
          have power : 2 ^ (after.bigDivExp + 1) ≤ 2 ^ exponent :=
            Nat.pow_le_pow_right (by decide) (by omega)
          calc value after.modTmp < value call.b * 2 ^ (after.bigDivExp + 1) := by
                rw [Nat.pow_succ]
                linarith
            _ ≤ value call.b * 2 ^ exponent := Nat.mul_le_mul_left _ power
    · unfold GapWithinWord
      rw [← inv.divValue]
      exact fun _ _ => inWord

theorem gapsLeft_halve
    (below : value state.modTmp < value state.bigDiv) (more : 0 < state.bigDivExp)
    (exponentEq : after.bigDivExp = state.bigDivExp - 1) (same : after.modTmp = state.modTmp) :
    GapsLeft call dividend state ↔ GapsLeft call dividend after := by
  have remainder := remainder_of_below some inv below
  constructor
  · intro gaps exponent positive reached
    apply gaps exponent positive
    left
    omega
  · intro gaps exponent positive reached
    by_cases left : exponent < after.bigDivExp ∨
        exponent = after.bigDivExp ∧ value after.bigDiv ≤ value after.modTmp
    · exact gaps exponent positive left
    · have last : exponent = after.bigDivExp := by omega
      apply gap_of_small some (show exponent < state.bigDivExp by omega)
      rw [← inv.divValue, ← remainder, last, ← next.divValue, ← same]
      by_contra fits
      exact left (.inr ⟨last, Nat.le_of_not_lt fits⟩)

theorem passesLeft_reduce
    (above : value state.bigDiv ≤ value state.modTmp) (exponentEq : after.bigDivExp =
      Nat.size (dividend % value state.bigDiv) - Nat.size (value call.b))
    (remainder : value after.modTmp = dividend % value state.bigDiv) :
    passesLeft after < passesLeft state := by
  have low := Nat.mod_lt dividend (divPositive some inv)
  have size := sizeDiv some inv
  have short := Nat.size_le_size low.le
  have left : passesLeft state = 2 * state.bigDivExp + 1 := by simp [passesLeft, above]
  rw [left]
  unfold passesLeft
  split
  · rename_i fits
    have strictly := exponent_lt_of_fits some inv next remainder fits (by omega)
    omega
  · omega

end

/-- The loop ends with the remainder, and its log is clean exactly if it was and no gap
that is left reaches a word. -/
theorem modLoop_spec (bit : 1 < width) (some : value call.b ≠ 0) (room : Room sizes call length)
    (inv : ModInv call dividend length state) {fuel : Nat} (enough : passesLeft state < fuel) :
    ∃ final, modLoop call fuel state = Option.some final ∧ Ended call dividend length final ∧
      (Safe sizes final.checks ↔ Safe sizes state.checks ∧ GapsLeft call dividend state) := by
  have wide : 0 < width := by omega
  induction fuel generalizing state with
  | zero => omega
  | succ fuel ih =>
    have compareSafe := modCompare_safe wide some inv room
    have logged : Safe sizes (state.log (modCompare call state).2).checks ↔
        Safe sizes state.checks := by
      simp only [ModState.log, safe_append]
      exact and_iff_left compareSafe
    have loggedInv := inv.log (modCompare call state).2
    by_cases above : value state.bigDiv ≤ value state.modTmp
    · have pass := modPass_reduce wide inv above
      rcases modReduce_spec wide some loggedInv room above with
        ⟨final, step, why, ended, safe⟩ |
        ⟨after, step, more, long, next, exponentEq, remainder, safe⟩
      · refine ⟨final, ?_, ended, ?_⟩
        · simp only [modLoop, pass, step]
        · rw [safe, logged]
          exact (and_iff_left (gapsLeft_reduce_ended some inv why)).symm
      · have fewer : passesLeft after < fuel := by
          have reduced := passesLeft_reduce some inv next above exponentEq remainder
          omega
        obtain ⟨final, run, ended, finalSafe⟩ := ih next fewer
        refine ⟨final, ?_, ended, ?_⟩
        · simp only [modLoop, pass, step, run]
        · rw [finalSafe, safe, logged,
            gapsLeft_reduce some inv next above more long exponentEq remainder]
          exact and_assoc
    · have below : value state.modTmp < value state.bigDiv := Nat.lt_of_not_le above
      have pass := modPass_halve wide inv below
      rcases modHalve_spec wide some loggedInv bit room below with
        ⟨final, step, last, ended, safe⟩ | ⟨after, step, more, next, exponentEq, same, safe⟩
      · refine ⟨final, ?_, ended, ?_⟩
        · simp only [modLoop, pass, step]
        · rw [safe, logged]
          exact (and_iff_left (gapsLeft_reduce_ended some inv (.inl last))).symm
      · have fewer : passesLeft after < fuel := by
          have left : passesLeft state = 2 * state.bigDivExp := by simp [passesLeft, above]
          have reduced : passesLeft after ≤ 2 * after.bigDivExp + 1 := by
            unfold passesLeft
            split
            · exact le_rfl
            · exact Nat.le_succ _
          have moved : after.bigDivExp = state.bigDivExp - 1 := exponentEq
          have positive : 0 < state.bigDivExp := more
          omega
        obtain ⟨final, run, ended, finalSafe⟩ := ih next fewer
        refine ⟨final, ?_, ended, ?_⟩
        · simp only [modLoop, pass, step, run]
        · rw [finalSafe, safe, logged, gapsLeft_halve some inv next below more exponentEq same]

def Extends (before after : ModState width) : Prop :=
  ∃ more, after.checks = before.checks ++ more

theorem Extends.trans {first second third : ModState width} (one : Extends first second)
    (two : Extends second third) : Extends first third := by
  obtain ⟨more, moreEq⟩ := one
  obtain ⟨rest, restEq⟩ := two
  exact ⟨more ++ rest, by rw [restEq, moreEq, append_assoc]⟩

theorem extends_modReduce (call : ModCall width) (state : ModState width) :
    Extends state (modReduce call state).1 := by
  rw [modReduce_eq]
  simp only
  split
  · exact ⟨_, rfl⟩
  · split
    · exact ⟨_, rfl⟩
    · exact ⟨_, rfl⟩

theorem extends_modHalve (call : ModCall width) (state : ModState width) :
    Extends state (modHalve call state).1 := by
  by_cases last : state.bigDivExp = 0
  · rw [modHalve, if_pos last]
    exact ⟨_, rfl⟩
  · rw [modHalve_eq (Nat.pos_of_ne_zero last)]
    exact ⟨_, rfl⟩

theorem extends_modPass (call : ModCall width) (state : ModState width) :
    Extends state (modPass call state).1 := by
  have compared : Extends state (state.log (modCompare call state).2) := ⟨_, rfl⟩
  simp only [modPass]
  split
  · exact compared.trans (extends_modReduce call _)
  · exact compared.trans (extends_modHalve call _)

theorem extends_modLoop {final : ModState width} {fuel : Nat}
    (run : modLoop call fuel state = some final) : Extends state final := by
  induction fuel generalizing state with
  | zero => cases run
  | succ fuel ih =>
    have pass := extends_modPass call state
    rw [modLoop] at run
    split at run
    · rename_i after step
      cases run
      rw [step] at pass
      exact pass
    · rename_i after step
      rw [step] at pass
      exact pass.trans (ih run)

end Loop

end OpenCore.ModDivision
