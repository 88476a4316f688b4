import OpenCore.PlacedBytes
import OpenCore.Plist
import OpenCore.XmlText

/-!
Strings, data and metadata of a property list, which are read in two steps: one function tells the
size of the buffer, another one fills it. What the second one writes starts at the buffer.
-/

namespace OpenCore.PlistBlob

open Base ByteBuffer Plist

section Source

inductive BlobType where
  | data
  | string
  | mdata
  deriving DecidableEq

def asciiStrLen (text : Bytes) : Nat := (XmlText.cString text).length

/-- What `AsciiStrnCpyS` writes: nothing where there is no room for the terminator. -/
def asciiStrnCpyS (destMax : Nat) (source : Bytes) (length : Nat) : Bytes :=
  let count := min (asciiStrLen source) length
  if destMax ≤ count then [] else (XmlText.cString source).take count ++ [0]

structure Decoded where
  success : Bool
  written : Bytes
  size : Nat

structure BlobValue where
  answer : Bool
  written : Bytes
  size : Nat
  deriving DecidableEq

def textSize : Option Text → Nat
  | some content => (asciiStrLen content.value + 1) % u32
  | none => 0

def dataSize : Option Text → Nat
  | some content => asciiStrLen content.value % u32
  | none => 0

def textValue (content : Option Text) (size : Nat) : BlobValue :=
  match content with
  | none => ⟨true, [0], 1⟩
  | some content =>
    let length := asciiStrLen content.value
    let size := if length < size then (length + 1) % u32 else size
    ⟨true, asciiStrnCpyS size content.value length, size⟩

variable (base64Decode : Bytes → Nat → Decoded)

def dataValue (content : Option Text) (size failedSize : Nat) : BlobValue :=
  match content with
  | none => ⟨true, [], 0⟩
  | some content =>
    let decoded := base64Decode (XmlText.cString content.value) size
    if decoded.success && decoded.size % u32 == decoded.size then
      ⟨true, decoded.written, decoded.size % u32⟩
    else ⟨false, decoded.written, failedSize⟩

def plistStringSize (node : XmlNode) : Option Nat :=
  (plistNodeCast node .string).map fun string => textSize (xmlNodeContent string)

def plistDataSize (node : XmlNode) : Option Nat :=
  (plistNodeCast node .data).map fun data => dataSize (xmlNodeContent data)

def plistMultiDataSize (node : XmlNode) : Option Nat :=
  if (plistNodeCast node .data).isSome then some (dataSize (xmlNodeContent node))
  else if (plistNodeCast node .string).isSome then some (textSize (xmlNodeContent node))
  else if (plistNodeCast node .integer).isSome then some 4
  else if (plistNodeCast node .isTrue).isSome || (plistNodeCast node .isFalse).isSome then some 1
  else none

def plistStringValue (node : XmlNode) (size : Nat) : BlobValue :=
  match plistNodeCast node .string with
  | none => ⟨false, [], size⟩
  | some string => textValue (xmlNodeContent string) size

def plistDataValue (node : XmlNode) (size : Nat) : BlobValue :=
  match plistNodeCast node .data with
  | none => ⟨false, [], size⟩
  | some data => dataValue base64Decode (xmlNodeContent data) size 0

def integerBytes (content : Option Text) : Bytes :=
  PlacedBytes.bytesOf 4 (content.elim 0 (asciiStrDecimalToUint64 ·.value) % u32)

def plistMultiDataValue (node : XmlNode) (size : Nat) : BlobValue :=
  if (plistNodeCast node .data).isSome then
    dataValue base64Decode (xmlNodeContent node) size size
  else if (plistNodeCast node .string).isSome then textValue (xmlNodeContent node) size
  else if (plistNodeCast node .integer).isSome then ⟨true, integerBytes (xmlNodeContent node), 4⟩
  else if (plistNodeCast node .isTrue).isSome then ⟨true, [1], 1⟩
  else if (plistNodeCast node .isFalse).isSome then ⟨true, [0], 1⟩
  else ⟨false, [], size⟩

def blobSize (type : BlobType) (node : XmlNode) : Option Nat :=
  match type with
  | .data => plistDataSize node
  | .string => plistStringSize node
  | .mdata => plistMultiDataSize node

def blobValue (type : BlobType) (node : XmlNode) (size : Nat) : BlobValue :=
  match type with
  | .data => plistDataValue base64Decode node size
  | .string => plistStringValue node size
  | .mdata => plistMultiDataValue base64Decode node size

end Source

section Values
variable {base64Decode : Bytes → Nat → Decoded} {base64 : Bytes → Option Bytes}
  {content : Option Text} {node : XmlNode} {size : Nat}
variable {type : PlistNodeType}

/-- `Base64Decode` as documented: it stays within the destination, and succeeds with all of what
the text encodes. -/
structure DecodesBase64 (base64Decode : Bytes → Nat → Decoded) (base64 : Bytes → Option Bytes) :
    Prop where
  within : ∀ text room, (base64Decode text room).written.length ≤ room
  complete : ∀ text room, (base64Decode text room).success = true →
    base64 text = some (base64Decode text room).written ∧
      (base64Decode text room).size = (base64Decode text room).written.length

def textOf (content : Option Text) : Bytes :=
  content.elim [] (XmlText.cString ·.value) ++ [0]

def dataOf (base64 : Bytes → Option Bytes) (content : Option Text) : Option Bytes :=
  content.elim (some []) (base64 <| XmlText.cString ·.value)

def valueOf (base64 : Bytes → Option Bytes) (node : XmlNode) : Option Bytes :=
  if node.name.value = ascii "data" then dataOf base64 (xmlNodeContent node)
  else if node.name.value = ascii "string" then some (textOf (xmlNodeContent node))
  else if node.name.value = ascii "integer" then some (integerBytes (xmlNodeContent node))
  else if node.name.value = ascii "true" then some [1]
  else if node.name.value = ascii "false" then some [0]
  else none

/-- What is written fits the buffer, `*Size` does as well, and success means that it is the value. -/
structure Fills (size : Nat) (read : BlobValue) (value : Option Bytes) : Prop where
  within : read.written.length ≤ size
  bounded : read.size ≤ size
  complete : read.answer = true → value = some read.written

def ReadsBack (base64Decode : Bytes → Nat → Decoded) (base64 : Bytes → Option Bytes)
    (type : BlobType) (node : XmlNode) : Prop :=
  ∀ size, blobSize type node = some size →
    Fills size (blobValue base64Decode type node size) (valueOf base64 node)

theorem asciiStrnCpyS_whole {destMax : Nat} {source : Bytes} (room : asciiStrLen source < destMax) :
    asciiStrnCpyS destMax source (asciiStrLen source) = XmlText.cString source ++ [0] := by
  rw [asciiStrnCpyS, Nat.min_self, if_neg (Nat.not_le_of_lt room)]
  exact congrArg (· ++ [0]) (List.take_length)

/-- The buffer of a text has room for it if there is text and its size fits 32 bits. -/
theorem textValue_fills : Fills (textSize content) (textValue content (textSize content))
      (some (textOf content)) ↔ ∃ text, content = some text ∧ asciiStrLen text.value + 1 < u32 := by
  constructor
  · intro fills
    cases content with
    | none => exact absurd fills.bounded (by decide)
    | some text =>
      refine ⟨text, rfl, ?_⟩
      by_contra long
      -- the size has wrapped, so that the copy is refused and the answer is still success
      have wrapped : textSize (some text) ≤ asciiStrLen text.value :=
        Nat.le_of_lt_succ ((Nat.mod_lt _ (by decide)).trans_le (Nat.le_of_not_lt long))
      have copied := Option.some.inj (fills.complete rfl)
      have nothing : (textValue (some text) (textSize (some text))).written = [] := by
        rw [textValue]
        simp only [if_neg (Nat.not_lt_of_le wrapped)]
        rw [asciiStrnCpyS, Nat.min_self]
        exact if_pos wrapped
      rw [nothing] at copied
      exact absurd copied (List.append_ne_nil_of_right_ne_nil _ (List.cons_ne_nil _ _))
  · rintro ⟨text, rfl, short⟩
    have size : textSize (some text) = asciiStrLen text.value + 1 := Nat.mod_eq_of_lt short
    have read : textValue (some text) (asciiStrLen text.value + 1) =
        ⟨true, XmlText.cString text.value ++ [0], asciiStrLen text.value + 1⟩ := by
      rw [textValue]
      simp only [if_pos (Nat.lt_succ_self _), Nat.mod_eq_of_lt short]
      rw [asciiStrnCpyS_whole (Nat.lt_succ_self _)]
    rw [size, read]
    exact ⟨(List.length_append).le, Nat.le_refl _, fun _ => rfl⟩

theorem dataValue_fills (library : DecodesBase64 base64Decode base64) {failedSize : Nat}
    (bounded : failedSize ≤ dataSize content) :
    Fills (dataSize content) (dataValue base64Decode content (dataSize content) failedSize)
      (dataOf base64 content) := by
  cases content with
  | none => exact ⟨Nat.le_refl _, Nat.le_refl _, fun _ => rfl⟩
  | some text =>
    have within := library.within (XmlText.cString text.value) (dataSize (some text))
    rw [dataValue]
    split
    · rename_i decoded
      rw [Bool.and_eq_true, beq_iff_eq] at decoded
      obtain ⟨value, length⟩ := library.complete _ _ decoded.1
      exact ⟨within, by rw [decoded.2, length]; exact within, fun _ => value⟩
    · exact ⟨within, bounded, fun clash => absurd clash Bool.false_ne_true⟩

theorem cast_some {other : XmlNode}
    (cast : plistNodeCast node type = some other) : other = node := by
  unfold plistNodeCast at cast
  split at cast
  · exact (Option.some.inj cast).symm
  · split at cast
    · cases cast
    · split at cast
      · exact (Option.some.inj cast).symm
      · cases cast

theorem cast_name {name : String} (named : plistNodeTypes type = some name)
    (cast : (plistNodeCast node type).isSome = true) : node.name.value = ascii name := by
  unfold plistNodeCast at cast
  rw [named] at cast
  by_contra different
  simp only [ne_eq, if_pos different] at cast
  cases cast

def ReadAsText (type : BlobType) (node : XmlNode) : Prop :=
  type ≠ .data ∧ (plistNodeCast node .string).isSome = true

theorem valueOf_data (named : node.name.value = ascii "data") :
    valueOf base64 node = dataOf base64 (xmlNodeContent node) := if_pos named

theorem valueOf_string (named : node.name.value = ascii "string") :
    valueOf base64 node = some (textOf (xmlNodeContent node)) := by
  rw [valueOf, named, if_neg (by decide), if_pos rfl]

theorem valueOf_integer (named : node.name.value = ascii "integer") :
    valueOf base64 node = some (integerBytes (xmlNodeContent node)) := by
  rw [valueOf, named, if_neg (by decide), if_neg (by decide), if_pos rfl]

theorem valueOf_true (named : node.name.value = ascii "true") : valueOf base64 node = some [1] := by
  rw [valueOf, named, if_neg (by decide), if_neg (by decide), if_neg (by decide), if_pos rfl]

theorem valueOf_false (named : node.name.value = ascii "false") : valueOf base64 node = some [0] := by
  rw [valueOf, named, if_neg (by decide), if_neg (by decide), if_neg (by decide), if_neg (by decide),
    if_pos rfl]

theorem plistDataValue_readsBack (library : DecodesBase64 base64Decode base64) :
    ReadsBack base64Decode base64 .data node := by
  intro size told
  obtain ⟨data, cast, rfl⟩ := Option.map_eq_some_iff.mp told
  obtain rfl := cast_some cast
  have named := cast_name rfl (cast ▸ rfl : (plistNodeCast data .data).isSome = true)
  rw [valueOf_data named, blobValue, plistDataValue, cast]
  exact dataValue_fills library (Nat.zero_le _)

theorem plistStringValue_readsBack (cast : plistNodeCast node .string = some node) :
    ReadsBack base64Decode base64 .string node ↔
      ∃ text, xmlNodeContent node = some text ∧ asciiStrLen text.value + 1 < u32 := by
  have named := cast_name rfl (cast ▸ rfl : (plistNodeCast node .string).isSome = true)
  have told : blobSize .string node = some (textSize (xmlNodeContent node)) := by
    rw [blobSize, plistStringSize, cast]
    rfl
  rw [← textValue_fills, ReadsBack, told, valueOf_string named]
  have value : ∀ size, blobValue base64Decode .string node size =
      textValue (xmlNodeContent node) size := by
    intro size
    rw [blobValue, plistStringValue, cast]
  simp only [value, Option.some.injEq, forall_eq']

theorem plistMultiDataValue_readsBack (library : DecodesBase64 base64Decode base64) :
    ReadsBack base64Decode base64 .mdata node ↔ ((plistNodeCast node .string).isSome = true →
      ∃ text, xmlNodeContent node = some text ∧ asciiStrLen text.value + 1 < u32) := by
  by_cases data : (plistNodeCast node .data).isSome = true
  · have named := cast_name rfl data
    refine iff_of_true (fun size told => ?_) fun string => ?_
    · rw [blobSize, plistMultiDataSize, if_pos data] at told
      cases told
      rw [valueOf_data named, blobValue, plistMultiDataValue, if_pos data]
      exact dataValue_fills library (Nat.le_refl _)
    · exact absurd (named.symm.trans (cast_name rfl string)) (by decide)
  by_cases string : (plistNodeCast node .string).isSome = true
  · have named := cast_name rfl string
    rw [← textValue_fills, ReadsBack, blobSize, plistMultiDataSize, if_neg data, if_pos string,
      valueOf_string named]
    have value : ∀ size, blobValue base64Decode .mdata node size =
        textValue (xmlNodeContent node) size := by
      intro size
      rw [blobValue, plistMultiDataValue, if_neg data, if_pos string]
    simp only [value, Option.some.injEq, forall_eq', string, true_implies]
  refine iff_of_true (fun size told => ?_) fun isString => absurd isString string
  rw [blobSize, plistMultiDataSize, if_neg data, if_neg string] at told
  rw [blobValue, plistMultiDataValue, if_neg data, if_neg string]
  by_cases integer : (plistNodeCast node .integer).isSome = true
  · rw [if_pos integer] at told ⊢
    cases told
    rw [valueOf_integer (cast_name rfl integer)]
    exact ⟨by rw [integerBytes, PlacedBytes.bytesOf, List.length_map, List.length_range],
      Nat.le_refl _, fun _ => rfl⟩
  rw [if_neg integer] at told ⊢
  by_cases yes : (plistNodeCast node .isTrue).isSome = true
  · rw [if_pos (by rw [yes]; rfl)] at told
    cases told
    rw [if_pos yes, valueOf_true (cast_name rfl yes)]
    exact ⟨Nat.le_refl _, Nat.le_refl _, fun _ => rfl⟩
  rw [if_neg yes]
  by_cases no : (plistNodeCast node .isFalse).isSome = true
  · rw [if_pos (by rw [no, Bool.or_true])] at told
    cases told
    rw [if_pos no, valueOf_false (cast_name rfl no)]
    exact ⟨Nat.le_refl _, Nat.le_refl _, fun _ => rfl⟩
  · rw [if_neg (by rw [Bool.or_eq_true]; exact fun either => either.elim yes no)] at told
    cases told

/-- The value is read back but where a text element is empty or too long. -/
theorem blobValue_readsBack (library : DecodesBase64 base64Decode base64) (type : BlobType)
    (node : XmlNode) :
    ReadsBack base64Decode base64 type node ↔
      (ReadAsText type node →
        ∃ text, xmlNodeContent node = some text ∧ asciiStrLen text.value + 1 < u32) := by
  cases type with
  | data => exact iff_of_true (plistDataValue_readsBack library) fun read => absurd rfl read.1
  | mdata =>
    have text : ReadAsText .mdata node ↔ (plistNodeCast node .string).isSome = true :=
      ⟨And.right, fun cast => ⟨by decide, cast⟩⟩
    rw [text]
    exact plistMultiDataValue_readsBack library
  | string =>
    cases cast : plistNodeCast node .string with
    | none =>
      refine iff_of_true (fun size told => ?_) fun read => ?_
      · rw [blobSize, plistStringSize, cast] at told
        cases told
      · have found := read.2
        rw [cast] at found
        cases found
    | some string =>
      obtain rfl := cast_some cast
      have text : ReadAsText .string string := ⟨by decide, cast ▸ rfl⟩
      rw [plistStringValue_readsBack cast]
      exact ⟨fun fits _ => fits, fun fits => fits text⟩

def oneByteText (text : Bytes) : Option Bytes := if text = ascii "AQ==" then some [1] else none

def decodeOneByte (text : Bytes) (room : Nat) : Decoded :=
  if text = ascii "AQ==" ∧ 1 ≤ room then ⟨true, [1], 1⟩ else ⟨false, [], room⟩

def element (name : String) (content : Option String) : XmlNode :=
  .mk (literal name) none (content.map literal) none []

theorem blobValue_readsBack_oneByte :
    blobSize .mdata (element "data" (some "AQ==")) = some 4 ∧
      blobValue decodeOneByte .mdata (element "data" (some "AQ==")) 4 = ⟨true, [1], 1⟩ ∧
      (ReadsBack decodeOneByte oneByteText .mdata (element "data" (some "AQ==")) ↔
        (ReadAsText .mdata (element "data" (some "AQ==")) →
          ∃ text, xmlNodeContent (element "data" (some "AQ==")) = some text ∧
            asciiStrLen text.value + 1 < u32)) := by
  refine ⟨rfl, rfl, blobValue_readsBack ⟨fun text room => ?_, fun text room success => ?_⟩ _ _⟩
  · rw [decodeOneByte]
    split
    · rename_i fits
      exact fits.2
    · exact Nat.zero_le _
  · by_cases fits : text = ascii "AQ==" ∧ 1 ≤ room
    · rw [decodeOneByte, if_pos fits]
      exact ⟨if_pos fits.1, rfl⟩
    · rw [decodeOneByte, if_neg fits] at success
      cases success

/-- An empty text element has no size, and its terminator is written all the same. -/
theorem blobValue_emptyString :
    (blobSize .string (element "string" none) = some 0 ∧
        blobValue decodeOneByte .string (element "string" none) 0 = ⟨true, [0], 1⟩) ∧
      ¬ ReadsBack decodeOneByte oneByteText .string (element "string" none) ∧
      ¬ ReadsBack decodeOneByte oneByteText .mdata (element "string" none) := by
  refine ⟨⟨rfl, rfl⟩, fun reads => ?_, fun reads => ?_⟩
  · exact absurd (reads 0 rfl).bounded (by decide)
  · exact absurd (reads 0 rfl).bounded (by decide)

end Values

end OpenCore.PlistBlob
