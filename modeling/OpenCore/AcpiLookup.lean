import OpenCore.AcpiParser
import OpenCore.AmlObjects

/-!
The parsers on the bytes of objects: what each step returns where an encoded
length or name stands at the cursor, with the whole context that it leaves.
-/

namespace OpenCore.AcpiLookup

open TracedAction AcpiContext AcpiParser AmlObjects List

variable {lookup : Lookup} {opcode identifier nesting entriesFound result : Nat} {α β : Type}

section Steps

variable (opcode identifier nesting entriesFound result)
variable {ctx final : Context} {status : Status} {body : Parser Status} {action : Parser α}
  {bytes : Nat}

theorem contextHasWork_ends (ctx : Context) : Ends contextHasWork ctx (.ok ()) ctx :=
  Ends.get_bind Ends.emit

theorem readTable_ends (offset : Nat) (ctx : Context) :
    Ends (readTable lookup offset) ctx (.ok (lookup.table offset)) ctx :=
  Ends.emit.bind Ends.pure

theorem currentByte_ends (ctx : Context) :
    Ends (currentByte lookup) ctx (.ok (lookup.table ctx.currentOpcode)) ctx :=
  Ends.get_bind (readTable_ends _ ctx)

theorem moveOpcode_ends (target : Nat) (ctx : Context) :
    Ends (moveOpcode target) ctx (.ok ()) { ctx with currentOpcode := target } :=
  Ends.modify_bind Ends.emit

theorem setIdentifier_ends (target : Nat) (ctx : Context) :
    Ends (setIdentifier target) ctx (.ok ()) { ctx with currentIdentifier := target } :=
  Ends.modify

theorem leaving_ends {statusOf : α → Status} {body : Parser α}
    {outcome : Except Exit α} (run : Ends body ctx outcome final) :
    Ends (leaving statusOf body) ctx outcome final :=
  run.ending

theorem function_ends (run : Ends body ctx (.ok status) final) :
    Ends (function body) ctx (.ok status) final :=
  (leaving_ends run).recover

theorem function_exit (run : Ends body ctx (.error (.returned status)) final) :
    Ends (function body) ctx (.ok status) final :=
  (leaving_ends run).recover_exit

theorem function_status {outcome : Except Exit Status} (run : Ends body ctx outcome final)
    (returned : outcome = .ok status ∨ outcome = .error (.returned status)) :
    Ends (function body) ctx (.ok status) final := by
  rcases returned with rfl | rfl
  · exact function_ends run
  · exact function_exit run

theorem orDeviceError_ends {value : α} (run : Ends action ctx (.ok value) final) :
    Ends (orDeviceError action) ctx (.ok value) final :=
  run.recover

theorem orDeviceError_exit (run : Ends action ctx (.error (.returned status)) final) :
    Ends (orDeviceError action) ctx (.error (.returned .deviceError)) final :=
  run.recover_exit

variable {nesting}

theorem contextIncreaseNesting_ends (parser : ParserName) (within : nesting < maxNesting) :
    Ends (contextIncreaseNesting parser) ⟨opcode, identifier, nesting, entriesFound, result⟩
      (.ok ()) ⟨opcode, identifier, nesting + 1, entriesFound, result⟩ := by
  have small : maxNesting < 2 ^ 31 := by decide
  have counted : (nesting + 1) % 2 ^ 32 = nesting + 1 := Nat.mod_eq_of_lt (by omega)
  have reached : ¬ maxNesting < nesting + 1 := by omega
  apply Ends.get_bind
  apply Ends.emit.bind
  apply Ends.modify_bind
  apply Ends.get_bind
  simp only [counted]
  exact Ends.ite_false reached Ends.pure

theorem contextIncreaseNesting_exit (parser : ParserName) :
    Ends (contextIncreaseNesting parser) ⟨opcode, identifier, maxNesting, entriesFound, result⟩
      (.error (.returned .outOfResources))
      ⟨opcode, identifier, maxNesting + 1, entriesFound, result⟩ := by
  have counted : (maxNesting + 1) % 2 ^ 32 = maxNesting + 1 := by decide
  apply Ends.get_bind
  apply Ends.emit.bind
  apply Ends.modify_bind
  apply Ends.get_bind
  simp only [counted]
  exact Ends.ite_true (Nat.lt_succ_self _) Ends.exit

theorem contextDecreaseNesting_ends (within : nesting < maxNesting) :
    Ends contextDecreaseNesting ⟨opcode, identifier, nesting + 1, entriesFound, result⟩
      (.ok ()) ⟨opcode, identifier, nesting, entriesFound, result⟩ := by
  have small : maxNesting < 2 ^ 31 := by decide
  have counted : (nesting + 1 + (2 ^ 32 - 1)) % 2 ^ 32 = nesting := by omega
  have run : Ends contextDecreaseNesting ⟨opcode, identifier, nesting + 1, entriesFound, result⟩
      (.ok ()) ⟨opcode, identifier, (nesting + 1 + (2 ^ 32 - 1)) % 2 ^ 32, entriesFound, result⟩ :=
    Ends.modify
  rw [counted] at run
  exact run

theorem deviceErrorIf_ends {condition : Bool} (passed : condition = false) (ctx : Context) :
    Ends (deviceErrorIf condition) ctx (.ok ()) ctx := by
  rw [passed]
  exact Ends.pure

variable {opcode} (fits : lookup.tableEnd < 2 ^ 32)
include fits

theorem contextPeekBytes_ends (ctx : Context) (room : ctx.currentOpcode + bytes ≤ lookup.tableEnd) :
    Ends (contextPeekBytes lookup bytes) ctx (.ok ()) ctx := by
  have passed : decide (remaining lookup ctx.currentOpcode < bytes) = false := by
    rw [remaining_eq fits (by omega), decide_eq_false_iff_not]
    omega
  exact Ends.get_bind (deviceErrorIf_ends passed ctx)

theorem contextConsumeBytes_ends (ctx : Context)
    (room : ctx.currentOpcode + bytes ≤ lookup.tableEnd) :
    Ends (contextConsumeBytes lookup bytes) ctx (.ok ())
      { ctx with currentOpcode := ctx.currentOpcode + bytes } := by
  apply (contextPeekBytes_ends fits ctx room).bind
  exact Ends.get_bind (moveOpcode_ends _ ctx)

theorem contextAdvanceOpcode_ends (ctx : Context) (room : ctx.currentOpcode + 1 < lookup.tableEnd) :
    Ends (contextAdvanceOpcode lookup) ctx (.ok ())
      { ctx with currentOpcode := ctx.currentOpcode + 1 } := by
  have passed : decide (remaining lookup ctx.currentOpcode ≤ 1) = false := by
    rw [remaining_eq fits (by omega), decide_eq_false_iff_not]
    omega
  apply Ends.get_bind
  apply (deviceErrorIf_ends passed ctx).bind
  exact moveOpcode_ends _ ctx

end Steps

section Bytes

variable {offset : Nat} {front rest : List UInt8} {byte : UInt8}

structure Stored (lookup : Lookup) (offset : Nat) (bytes : List UInt8) : Prop where
  byte : ∀ index byte, bytes[index]? = some byte → lookup.table (offset + index) = byte
  within : offset + bytes.length ≤ lookup.tableEnd

theorem Stored.head {rest : List UInt8}
    (stored : Stored lookup offset (byte :: rest)) : lookup.table offset = byte :=
  stored.byte 0 byte rfl

theorem Stored.tail {rest : List UInt8}
    (stored : Stored lookup offset (byte :: rest)) : Stored lookup (offset + 1) rest := by
  constructor
  · intro index value found
    rw [add_assoc, add_comm 1]
    exact stored.byte (index + 1) value found
  · have within := stored.within
    rw [length_cons] at within
    omega

theorem Stored.left
    (stored : Stored lookup offset (front ++ rest)) : Stored lookup offset front := by
  constructor
  · intro index value found
    have bound := (List.getElem?_eq_some_iff.mp found).1
    apply stored.byte
    rw [getElem?_append_left bound]
    exact found
  · have within := stored.within
    rw [length_append] at within
    omega

theorem Stored.right (stored : Stored lookup offset (front ++ rest)) :
    Stored lookup (offset + front.length) rest := by
  constructor
  · intro index value found
    rw [add_assoc]
    apply stored.byte
    rw [getElem?_append_right (Nat.le_add_right _ _), Nat.add_sub_cancel_left]
    exact found
  · have within := stored.within
    rw [length_append] at within
    omega

end Bytes

section Lengths

variable {extra length : Nat} {bytes : Nat → Nat}

theorem shift_or {high low shift : Nat} (small : low < 2 ^ shift) :
    low ||| high * 2 ^ shift = high * 2 ^ shift + low := by
  rw [Nat.or_comm, ← Nat.shiftLeft_eq, Nat.shiftLeft_add_eq_or_of_lt small]

def joined (bytes : Nat → Nat) : List Nat → Nat
  | [] => 0
  | index :: rest => bytes index <<< (index * 8 + 4) ||| joined bytes rest

theorem joined_one : joined bytes [0] = bytes 0 * 16 := by
  simp [joined, Nat.shiftLeft_eq]

theorem joined_two (small : bytes 0 < 256) :
    joined bytes [0, 1] = (bytes 1 * 256 + bytes 0) * 16 := by
  have low : bytes 0 * 16 < 2 ^ 12 := by omega
  simp only [joined, Nat.shiftLeft_eq, Nat.or_zero, Nat.reduceMul, Nat.reduceAdd]
  rw [shift_or low]
  omega

theorem joined_three (zeroSmall : bytes 0 < 256) (oneSmall : bytes 1 < 256) :
    joined bytes [0, 1, 2] = ((bytes 2 * 256 + bytes 1) * 256 + bytes 0) * 16 := by
  have low : bytes 0 * 16 < 2 ^ 12 := by omega
  have middle : bytes 1 * 2 ^ 12 < 2 ^ 20 := by omega
  have high : bytes 1 * 2 ^ 12 ||| bytes 2 * 2 ^ 20 = (bytes 2 * 256 + bytes 1) * 2 ^ 12 := by
    rw [shift_or middle]
    omega
  have unfolded : joined bytes [0, 1, 2] =
      bytes 0 * 16 ||| (bytes 1 * 2 ^ 12 ||| bytes 2 * 2 ^ 20) := by
    simp [joined, Nat.shiftLeft_eq]
  rw [unfolded, high, shift_or low]
  omega

theorem pkgLengthBytes_ends (base : Nat) (indices : List Nat) (ctx : Context) :
    Ends (pkgLengthBytes lookup base indices) ctx
      (.ok (joined (fun index => (lookup.table (base + index)).toNat) indices)) ctx := by
  induction indices with
  | nil => exact Ends.pure
  | cons index rest ih =>
    apply (readTable_ends _ ctx).bind
    exact ih.bind Ends.pure

theorem joined_length (some : 0 < extra) (few : extra < 4) (room : length < 16 * 256 ^ extra)
    (stored : ∀ index, index < extra → bytes index = length / 16 / 256 ^ index % 256) :
    joined bytes (List.range extra) = length / 16 * 16 := by
  have cases : extra = 1 ∨ extra = 2 ∨ extra = 3 := by omega
  rcases cases with rfl | rfl | rfl
  · have zero := stored 0 (by decide)
    change joined bytes [0] = _
    rw [joined_one, zero]
    omega
  · have zero := stored 0 (by decide)
    have one := stored 1 (by decide)
    change joined bytes [0, 1] = _
    rw [joined_two (by omega), zero, one]
    omega
  · have zero := stored 0 (by decide)
    have one := stored 1 (by decide)
    have two := stored 2 (by decide)
    change joined bytes [0, 1, 2] = _
    rw [joined_three (by omega) (by omega), zero, one, two]
    omega

theorem pkgByteCount_eq {leadByte : UInt8} : pkgByteCount leadByte = leadByte.toNat / 64 := by
  have bound := leadByte.toNat_lt
  have mask := Nat.and_two_pow_sub_one_eq_mod (leadByte.toNat / 64) 2
  rw [pkgByteCount, Nat.shiftRight_and_distrib, Nat.shiftRight_eq_div_pow]
  change leadByte.toNat / 64 &&& 2 ^ 2 - 1 = _
  rw [mask]
  omega

theorem low_nibble (leadByte : UInt8) : leadByte.toNat &&& 0x0F = leadByte.toNat % 16 :=
  Nat.and_two_pow_sub_one_eq_mod leadByte.toNat 4

theorem lead_toNat (few : extra < 4) :
    (UInt8.ofNat (extra * 64 + length % 16)).toNat = extra * 64 + length % 16 := by
  rw [UInt8.toNat_ofNat']
  omega

variable (fits : lookup.tableEnd < 2 ^ 32)
include fits

section

variable (room : LengthFits extra length)
  (stored : Stored lookup opcode (encodeLength extra length))
include room stored

theorem parsePkgLengthBytes_ends :
    Ends (parsePkgLengthBytes lookup (lookup.table opcode))
      ⟨opcode + 1, identifier, nesting, entriesFound, result⟩ (.ok length)
      ⟨opcode + (extra + 1), identifier, nesting, entriesFound, result⟩ := by
  rcases room with ⟨rfl, small⟩ | ⟨some, few, small⟩
  · -- the lead byte is the length
    have lead : lookup.table opcode = UInt8.ofNat length := stored.head
    have value : (lookup.table opcode).toNat = length := by
      rw [lead, UInt8.toNat_ofNat']
      omega
    apply Ends.ite_false
    · rw [pkgByteCount_eq, value]
      omega
    · rw [value]
      exact Ends.pure
  · have form : encodeLength extra length = UInt8.ofNat (extra * 64 + length % 16) ::
        (List.range extra).map fun index => UInt8.ofNat (length / 16 / 256 ^ index) := by
      rw [encodeLength, if_neg (Nat.pos_iff_ne_zero.mp some)]
    rw [form] at stored
    have within := stored.within
    rw [length_cons, length_map, length_range] at within
    have value : (lookup.table opcode).toNat = extra * 64 + length % 16 := by
      rw [stored.head, lead_toNat few]
    have count : pkgByteCount (lookup.table opcode) = extra := by
      rw [pkgByteCount_eq, value]
      omega
    have bytes : ∀ index, index < extra →
        (lookup.table (opcode + 1 + index)).toNat = length / 16 / 256 ^ index % 256 := by
      intro index before
      rw [stored.tail.byte index (UInt8.ofNat (length / 16 / 256 ^ index))
        (by simp [getElem?_range before]), UInt8.toNat_ofNat']
    have nibble : (lookup.table opcode).toNat &&& 0x0F = length % 16 := by
      rw [low_nibble, value]
      omega
    have total : joined (fun index => (lookup.table (opcode + 1 + index)).toNat)
        (List.range extra) ||| ((lookup.table opcode).toNat &&& 0x0F) = length := by
      rw [joined_length some few small bytes, nibble, Nat.or_comm]
      have low : length % 16 < 2 ^ 4 := by omega
      change length % 16 ||| length / 16 * 2 ^ 4 = length
      rw [shift_or low]
      omega
    have ends : opcode + 1 + extra = opcode + (extra + 1) := by omega
    apply Ends.ite_true
    · rw [count]
      exact some
    · rw [count]
      apply (contextPeekBytes_ends fits _ (by simp only; omega)).bind
      apply Ends.get_bind
      apply (pkgLengthBytes_ends _ _ _).bind
      apply (contextConsumeBytes_ends fits _ (by simp only; omega)).bind
      rw [← ends]
      simp only [total]
      exact Ends.pure

theorem parsePkgLength_ends (limit : nesting < maxNesting) :
    Ends (parsePkgLength lookup) ⟨opcode, identifier, nesting, entriesFound, result⟩ (.ok length)
      ⟨opcode + (extra + 1), identifier, nesting, entriesFound, result⟩ := by
  have within := stored.within
  rw [encodeLength_length] at within
  apply leaving_ends
  apply (contextHasWork_ends _).bind
  apply (contextIncreaseNesting_ends _ _ _ _ .pkgLength limit).bind
  apply (currentByte_ends _).bind
  apply (contextConsumeBytes_ends fits _ (by simp only; omega)).bind
  apply (parsePkgLengthBytes_ends fits room stored).bind
  apply (contextDecreaseNesting_ends _ _ _ _ limit).bind
  exact Ends.pure

theorem parseBlockEnd_ends (limit : nesting < maxNesting)
    (inside : opcode + length ≤ lookup.tableEnd) :
    Ends (parseBlockEnd lookup) ⟨opcode, identifier, nesting, entriesFound, result⟩
      (.ok (opcode + length))
      ⟨opcode + (extra + 1), identifier, nesting, entriesFound, result⟩ := by
  have passed : decide (remaining lookup opcode < length) = false := by
    rw [remaining_eq fits (by omega), decide_eq_false_iff_not]
    omega
  apply Ends.get_bind
  apply (orDeviceError_ends (parsePkgLength_ends fits room stored limit)).bind
  apply (deviceErrorIf_ends passed _).bind
  exact Ends.pure

end

omit fits in
theorem parseBlockEnd_exit :
    Ends (parseBlockEnd lookup) ⟨opcode, identifier, maxNesting, entriesFound, result⟩
      (.error (.returned .deviceError))
      ⟨opcode, identifier, maxNesting + 1, entriesFound, result⟩ := by
  apply Ends.get_bind
  apply Ends.bind_exit
  apply orDeviceError_exit
  apply leaving_ends
  apply (contextHasWork_ends _).bind
  exact (contextIncreaseNesting_exit _ _ _ _ .pkgLength).bind_exit

end Lengths

section Names

variable {name : Name}

theorem leadChar_ne {byte : UInt8} (lead : LeadChar byte) :
    byte ≠ amlZeroOp ∧ byte ≠ amlDualNamePrefix ∧ byte ≠ amlMultiNamePrefix ∧
      byte ≠ amlRootChar ∧ byte ≠ amlParentPrefixChar := by
  refine ⟨?_, ?_, ?_, ?_, ?_⟩ <;> rintro rfl <;> exact absurd lead (by decide)

theorem segments_length (segments : List Segment) :
    (segments.flatMap Segment.bytes).length = segments.length * identLen := by
  induction segments with
  | nil => rfl
  | cons segment rest ih =>
    rw [flatMap_cons, length_append, ih, length_cons, Nat.succ_mul, add_comm]
    rfl

theorem encode_pos (name : Name) : 0 < name.encode.length := by
  have some := name.segments_pos
  have four : identLen = 4 := rfl
  rw [Name.encode, length_append, segments_length, four]
  omega

theorem skipNamePrefix_ends {fuel : Nat} {isRootPath : Bool} {ctx : Context}
    (relative : lookup.table ctx.currentOpcode ≠ amlRootChar ∧
      lookup.table ctx.currentOpcode ≠ amlParentPrefixChar) :
    Ends (skipNamePrefix lookup (fuel + 1) isRootPath) ctx (.ok isRootPath) ctx := by
  apply (currentByte_ends ctx).bind
  apply Ends.ite_false
  · rintro (root | parent)
    · exact relative.1 root
    · exact relative.2 parent
  · exact Ends.pure

theorem encode_leads (stored : Stored lookup opcode name.encode) :
    lookup.table opcode ≠ amlRootChar ∧ lookup.table opcode ≠ amlParentPrefixChar := by
  obtain ⟨form, segments, holds⟩ := name
  cases form with
  | single =>
    obtain ⟨segment, rfl⟩ := length_eq_one_iff.mp holds
    have first : lookup.table opcode = segment.first := stored.head
    rw [first]
    exact (leadChar_ne segment.lead).2.2.2
  | dual =>
    have first : lookup.table opcode = 0x2E := stored.head
    rw [first]
    decide
  | multi =>
    have first : lookup.table opcode = 0x2F := stored.head
    rw [first]
    decide

variable (fits : lookup.tableEnd < 2 ^ 32)
include fits

theorem parseNameSegments_ends (stored : Stored lookup opcode name.encode) :
    Ends (parseNameSegments lookup false) ⟨opcode, identifier, nesting, entriesFound, result⟩
      (.ok ⟨opcode + name.leading.length, name.segments.length, false⟩)
      ⟨opcode + name.encode.length, identifier, nesting, entriesFound, result⟩ := by
  obtain ⟨form, segments, holds⟩ := name
  have within := stored.within
  cases form with
  | single =>
    obtain ⟨segment, rfl⟩ := length_eq_one_iff.mp holds
    have first : lookup.table opcode = segment.first := stored.head
    obtain ⟨notZero, notDual, notMulti, -, -⟩ := leadChar_ne segment.lead
    apply (currentByte_ends _).bind
    simp only [first]
    apply Ends.ite_false notZero
    apply Ends.ite_false notDual
    apply Ends.ite_false notMulti
    apply (contextPeekBytes_ends fits _ within).bind
    apply Ends.get_bind
    apply (moveOpcode_ends _ _).bind
    exact Ends.pure
  | dual =>
    have count : segments.length = 2 := holds
    have size : (Name.encode ⟨.dual, segments, holds⟩).length = 1 + 2 * identLen := by
      rw [Name.encode, length_append, segments_length, count]
      rfl
    have first : lookup.table opcode = amlDualNamePrefix := stored.head
    have four : identLen = 4 := rfl
    rw [size] at within
    rw [size, ← add_assoc]
    apply (currentByte_ends _).bind
    simp only [first, count]
    apply Ends.ite_false (by decide)
    apply Ends.ite_true trivial
    apply (contextAdvanceOpcode_ends fits _ (by simp only; omega)).bind
    apply (contextPeekBytes_ends fits _ (by simp only; omega)).bind
    apply Ends.get_bind
    apply (moveOpcode_ends _ _).bind
    exact Ends.pure
  | multi =>
    have count : (UInt8.ofNat segments.length).toNat = segments.length := by
      rw [UInt8.toNat_ofNat']
      exact Nat.mod_eq_of_lt holds.2
    have size : (Name.encode ⟨.multi, segments, holds⟩).length =
        1 + (1 + segments.length * identLen) := by
      rw [Name.encode, length_append, segments_length, ← add_assoc]
      rfl
    have first : lookup.table opcode = amlMultiNamePrefix := stored.head
    have second : lookup.table (opcode + 1) = UInt8.ofNat segments.length := stored.tail.head
    have four : identLen = 4 := rfl
    rw [size] at within
    rw [size, ← add_assoc]
    apply (currentByte_ends _).bind
    simp only [first]
    apply Ends.ite_false (by decide)
    apply Ends.ite_false (by decide)
    apply Ends.ite_true trivial
    apply (contextAdvanceOpcode_ends fits _ (by simp only; omega)).bind
    apply (currentByte_ends _).bind
    simp only [second, count]
    apply (contextPeekBytes_ends fits _ (by simp only; omega)).bind
    apply Ends.get_bind
    apply (moveOpcode_ends _ _).bind
    exact Ends.pure

theorem parseNameString_ends (stored : Stored lookup opcode name.encode)
    (limit : nesting < maxNesting) :
    Ends (parseNameString lookup) ⟨opcode, identifier, nesting, entriesFound, result⟩
      (.ok ⟨opcode + name.leading.length, name.segments.length, false⟩)
      ⟨opcode + name.encode.length, identifier, nesting, entriesFound, result⟩ := by
  apply leaving_ends
  apply (contextHasWork_ends _).bind
  apply (contextIncreaseNesting_ends _ _ _ _ .nameString limit).bind
  apply (skipNamePrefix_ends (encode_leads stored)).bind
  apply (parseNameSegments_ends fits stored).bind
  apply (contextDecreaseNesting_ends _ _ _ _ limit).bind
  exact Ends.pure

end Names

section Matching

variable {name : Nat} {segments : List Segment} {path : List UInt32} {pointer : Nat}

def characterOf (path : UInt32) (index : Nat) : UInt8 :=
  UInt8.ofNat (path.toNat / 256 ^ (identLen - index - 1))

theorem readPath_ends (identifier index : Nat) (ctx : Context) :
    Ends (readPath lookup identifier index) ctx
      (.ok (characterOf (lookup.path identifier) index)) ctx :=
  Ends.emit.bind Ends.pure

theorem compareCharacters_ends {indices : List Nat} (ctx : Context) :
    Ends (compareCharacters lookup name indices) ctx
      (.ok (indices.all fun index =>
        lookup.table (name + index) == characterOf (lookup.path ctx.currentIdentifier) index))
      ctx := by
  induction indices with
  | nil => exact Ends.pure
  | cons index rest ih =>
    apply (readTable_ends _ ctx).bind
    apply Ends.get_bind
    apply (readPath_ends _ _ ctx).bind
    rw [List.all_cons]
    by_cases same : lookup.table (name + index) =
        characterOf (lookup.path ctx.currentIdentifier) index
    · rw [beq_iff_eq.mpr same, Bool.true_and]
      exact Ends.ite_true same ih
    · rw [beq_false_of_ne same, Bool.false_and]
      exact Ends.ite_false same Ends.pure

theorem identifier_toNat (segment : Segment) :
    segment.identifier.toNat = segment.first.toNat * 2 ^ 24 + segment.second.toNat * 2 ^ 16 +
      segment.third.toNat * 2 ^ 8 + segment.fourth.toNat := by
  have first := segment.first.toNat_lt
  have second := segment.second.toNat_lt
  have third := segment.third.toNat_lt
  have fourth := segment.fourth.toNat_lt
  rw [Segment.identifier, UInt32.toNat_ofNat']
  omega

theorem characters_iff (segment : Segment) (path : UInt32) :
    (segment.first = characterOf path 0 ∧ segment.second = characterOf path 1 ∧
        segment.third = characterOf path 2 ∧ segment.fourth = characterOf path 3) ↔
      path = segment.identifier := by
  have bound := path.toNat_lt
  have first := segment.first.toNat_lt
  have second := segment.second.toNat_lt
  have third := segment.third.toNat_lt
  have fourth := segment.fourth.toNat_lt
  rw [← UInt32.toNat_inj, identifier_toNat, ← UInt8.toNat_inj, ← UInt8.toNat_inj, ← UInt8.toNat_inj,
    ← UInt8.toNat_inj]
  simp only [characterOf, identLen, UInt8.toNat_ofNat']
  omega

theorem matchIdentifier_ends {segment : Segment}
    (stored : Stored lookup name segment.bytes) (ctx : Context) :
    Ends (matchIdentifier lookup name) ctx
      (.ok (decide (lookup.path ctx.currentIdentifier = segment.identifier))) ctx := by
  have run : Ends (matchIdentifier lookup name) ctx _ ctx := compareCharacters_ends ctx
  have indices : List.range identLen = [0, 1, 2, 3] := rfl
  have first : lookup.table name = segment.first := stored.byte 0 _ rfl
  have second : lookup.table (name + 1) = segment.second := stored.byte 1 _ rfl
  have third : lookup.table (name + 2) = segment.third := stored.byte 2 _ rfl
  have fourth : lookup.table (name + 3) = segment.fourth := stored.byte 3 _ rfl
  have same : ((List.range identLen).all fun index => lookup.table (name + index) ==
      characterOf (lookup.path ctx.currentIdentifier) index) =
      decide (lookup.path ctx.currentIdentifier = segment.identifier) := by
    rw [Bool.eq_iff_iff, decide_eq_true_iff, ← characters_iff, indices]
    simp [first, second, third, fourth]
  rw [same] at run
  exact run

structure PathIs (lookup : Lookup) (path : List UInt32) : Prop where
  identifier : ∀ index identifier, path[index]? = some identifier → lookup.path index = identifier
  pathEnd : lookup.pathEnd = path.length

theorem matchScopeName_ends (sought : PathIs lookup path)
    (stored : Stored lookup name (segments.flatMap Segment.bytes)) (within : pointer ≤ path.length) :
    Ends (matchScopeName lookup name segments.length)
      ⟨opcode, pointer, nesting, entriesFound, result⟩ (.ok ())
      ⟨opcode, follow path pointer (segments.map Segment.identifier), nesting, entriesFound,
        result⟩ := by
  induction segments generalizing name pointer with
  | nil => exact Ends.pure
  | cons segment rest ih =>
    rw [flatMap_cons] at stored
    apply Ends.get_bind
    by_cases ends : pointer = path.length
    · have behind : path[pointer]? = none := getElem?_eq_none (le_of_eq ends.symm)
      apply Ends.ite_true (ends.trans sought.pathEnd.symm)
      rw [map_cons, follow, behind, if_neg (by simp)]
      exact Ends.modify
    · have before : pointer < path.length := by omega
      have current : lookup.path pointer = path[pointer] :=
        sought.identifier pointer _ (getElem?_eq_getElem before)
      apply Ends.ite_false
      · rw [sought.pathEnd]
        exact ends
      apply (matchIdentifier_ends stored.left _).bind
      simp only [current]
      by_cases same : path[pointer] = segment.identifier
      · apply Ends.ite_true (decide_eq_true same)
        apply Ends.modify_bind
        rw [map_cons, follow, getElem?_eq_getElem before, if_pos (congrArg some same)]
        exact ih stored.right before
      · apply Ends.ite_false (by simpa using same)
        rw [map_cons, follow, getElem?_eq_getElem before, if_neg (by simpa using same)]
        exact Ends.modify

theorem matchWholeName_ends (sought : PathIs lookup path)
    (stored : Stored lookup name (segments.flatMap Segment.bytes)) (within : pointer ≤ path.length) :
    ∃ reached, Ends (matchWholeName lookup name segments.length)
      ⟨opcode, pointer, nesting, entriesFound, result⟩
      (.ok (decide (path.drop pointer = segments.map Segment.identifier)))
      ⟨opcode, reached, nesting, entriesFound, result⟩ := by
  induction segments generalizing name pointer with
  | nil =>
    have whole : decide (path.drop pointer = []) = (pointer == lookup.pathEnd) := by
      rw [Bool.eq_iff_iff, decide_eq_true_iff, beq_iff_eq, drop_eq_nil_iff, sought.pathEnd]
      omega
    refine ⟨pointer, ?_⟩
    rw [map_nil, whole]
    exact Ends.get_bind Ends.pure
  | cons segment rest ih =>
    rw [flatMap_cons] at stored
    by_cases ends : pointer = path.length
    · have differs : decide (path.drop pointer = (segment :: rest).map Segment.identifier) =
          false := by
        rw [drop_eq_nil_of_le (le_of_eq ends.symm)]
        exact decide_eq_false nofun
      refine ⟨pointer, ?_⟩
      rw [differs]
      apply Ends.get_bind
      exact Ends.ite_true (ends.trans sought.pathEnd.symm) Ends.pure
    · have before : pointer < path.length := by omega
      have current : lookup.path pointer = path[pointer] :=
        sought.identifier pointer _ (getElem?_eq_getElem before)
      have notEnd : ¬ pointer = lookup.pathEnd := by
        rw [sought.pathEnd]
        exact ends
      have compared := matchIdentifier_ends stored.left
        ⟨opcode, pointer, nesting, entriesFound, result⟩
      rw [map_cons, drop_eq_getElem_cons before]
      by_cases same : path[pointer] = segment.identifier
      · obtain ⟨reached, run⟩ := ih stored.right before
        have whole : decide (path[pointer] :: path.drop (pointer + 1) =
            segment.identifier :: rest.map Segment.identifier) =
            decide (path.drop (pointer + 1) = rest.map Segment.identifier) := by
          rw [same]
          simp
        refine ⟨reached, ?_⟩
        rw [whole]
        apply Ends.get_bind
        apply Ends.ite_false notEnd
        apply compared.bind
        simp only [current]
        apply Ends.ite_true (decide_eq_true same)
        exact Ends.modify_bind run
      · have differs : decide (path[pointer] :: path.drop (pointer + 1) =
            segment.identifier :: rest.map Segment.identifier) = false :=
          decide_eq_false fun equal => same (List.cons.inj equal).1
        refine ⟨pointer, ?_⟩
        rw [differs]
        apply Ends.get_bind
        apply Ends.ite_false notEnd
        apply compared.bind
        simp only [current]
        exact Ends.ite_false (by simpa using same) Ends.pure

end Matching

end OpenCore.AcpiLookup
