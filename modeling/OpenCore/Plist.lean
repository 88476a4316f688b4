import OpenCore.Base
import OpenCore.ByteBuffer

/-!
Property lists over parsed XML nodes, after `OcXmlLib.c`. A string of the
library is a pointer, so it is kept with the storage it points into: nodes of a
document share its buffer, and nodes appended later keep the storage of
whatever the caller passed.
-/

namespace OpenCore.Plist

open Base ByteBuffer

inductive Storage where
  | prelinkedInfo
  | pooled
  | caller
  | literal
  | temporary
  deriving DecidableEq

structure Text where
  value : Bytes
  storage : Storage
  deriving DecidableEq

def ascii (text : String) : Bytes := text.toList.map fun c => UInt8.ofNat c.toNat

theorem ascii_append (first second : String) : ascii (first ++ second) = ascii first ++ ascii second := by
  rw [ascii, String.toList_append, List.map_append]
  rfl

theorem ascii_ofList (chars : List Char) :
    ascii (String.ofList chars) = chars.map fun c => UInt8.ofNat c.toNat := by
  rw [ascii, String.toList_ofList]

def literal (text : String) : Text := ⟨ascii text, .literal⟩

theorem literal_value (text : String) : (literal text).value = ascii text := rfl

inductive XmlNode where
  | mk (name : Text) (attributes content : Option Text) (real : Option (Option Text))
      (children : List XmlNode)

namespace XmlNode

def name : XmlNode → Text
  | mk name _ _ _ _ => name

def children : XmlNode → List XmlNode
  | mk _ _ _ _ children => children

def withChildren : XmlNode → List XmlNode → XmlNode
  | mk name attributes content real _, children => mk name attributes content real children

mutual

def storedIn (storage : Storage) : XmlNode → XmlNode
  | mk name attributes content real children =>
    let stored (text : Text) : Text := ⟨text.value, storage⟩
    mk (stored name) (attributes.map stored) (content.map stored) (real.map (·.map stored))
      (listStoredIn storage children)

def listStoredIn (storage : Storage) : List XmlNode → List XmlNode
  | [] => []
  | node :: rest => node.storedIn storage :: listStoredIn storage rest

end

end XmlNode

def xmlNodeContent : XmlNode → Option Text
  | .mk _ _ content real _ => real.getD content

def xmlNodeChildren (node : XmlNode) : Nat := node.children.length

def xmlNodeAppend (node : XmlNode) (name : String) (attributes content : Option Text) : XmlNode :=
  node.withChildren (node.children ++ [.mk (literal name) attributes content none []])

inductive PlistNodeType where
  | any
  | array
  | dict
  | key
  | string
  | data
  | date
  | isTrue
  | isFalse
  | real
  | integer
  deriving DecidableEq

def plistNodeTypes : PlistNodeType → Option String
  | .any => none
  | .array => some "array"
  | .dict => some "dict"
  | .key => some "key"
  | .string => some "string"
  | .data => some "data"
  | .date => some "date"
  | .isTrue => some "true"
  | .isFalse => some "false"
  | .real => some "real"
  | .integer => some "integer"

def plistNodeShape (node : XmlNode) : PlistNodeType → Bool
  | .any => true
  | .dict => xmlNodeChildren node % 2 = 0
  | .array => true
  | .key | .integer | .real => (xmlNodeContent node).isSome && xmlNodeChildren node = 0
  | _ => xmlNodeChildren node = 0

def plistNodeCast (node : XmlNode) (type : PlistNodeType) : Option XmlNode :=
  match plistNodeTypes type with
  | none => some node
  | some name =>
    if node.name.value ≠ ascii name then none
    else if plistNodeShape node type then some node else none

/-- The key and value nodes of a dict, for each index below `PlistDictChildren`. -/
def plistDictEntries : List XmlNode → List (XmlNode × XmlNode)
  | key :: value :: rest => (key, value) :: plistDictEntries rest
  | _ => []

def plistDictChildren (node : XmlNode) : List (XmlNode × XmlNode) :=
  plistDictEntries node.children

def plistKeyValue (node : XmlNode) : Option Text :=
  (plistNodeCast node .key).bind xmlNodeContent

def skipBlanks : Bytes → Bytes
  | [] => []
  | c :: rest => if c = 32 ∨ c = 9 then skipBlanks rest else c :: rest

def decimalDigit (c : UInt8) : Option Nat :=
  if 48 ≤ c ∧ c ≤ 57 then some (c.toNat - 48) else none

def hexDigit (c : UInt8) : Option Nat :=
  if 48 ≤ c ∧ c ≤ 57 then some (c.toNat - 48)
  else if 65 ≤ c ∧ c ≤ 70 then some (c.toNat - 55)
  else if 97 ≤ c ∧ c ≤ 102 then some (c.toNat - 87)
  else none

def digitsValue (radix : Nat) (digit : UInt8 → Option Nat) : Nat → Bytes → Nat
  | total, [] => total
  | total, c :: rest =>
    match digit c with
    | none => total
    | some value => digitsValue radix digit (min (total * radix + value) (u64 - 1)) rest

def asciiStrDecimalToUint64 (text : Bytes) : Nat :=
  digitsValue 10 decimalDigit 0 (skipBlanks text)

def asciiStrHexToUint64 (text : Bytes) : Nat :=
  let trimmed := skipBlanks text
  let digits := trimmed.dropWhile (· = 48)
  match digits with
  | c :: rest =>
    if c = 120 ∨ c = 88 then
      if digits.length < trimmed.length then digitsValue 16 hexDigit 0 rest else 0
    else digitsValue 16 hexDigit 0 digits
  | [] => 0

def plistIntegerValue (node : XmlNode) (modulus : Nat) (hex : Bool) : Option Nat :=
  (plistNodeCast node .integer).bind fun integer =>
    (xmlNodeContent integer).map fun content =>
      let trimmed := skipBlanks content.value
      let negate : Bool := trimmed.getD 0 0 = 45
      let digits := if negate then trimmed.drop 1 else trimmed
      let plain : Bool := digits.getD 0 0 ≠ 48 ∧ digits.getD 1 0 ≠ 120
      let value := if hex && !plain then asciiStrHexToUint64 digits
        else asciiStrDecimalToUint64 digits
      (if negate then wrapSub u64 0 value else value) % modulus

def plistDocumentRoot (root : XmlNode) : Option XmlNode :=
  if root.name.value ≠ ascii "plist" then none
  else if xmlNodeChildren root ≠ 1 then none
  else root.children.head?

def hexDigits (value : Nat) : Bytes := (Nat.toDigits 16 value).map fun c => UInt8.ofNat c.toNat

def asciiUint64ToLowerHex (value : Nat) : Bytes := ascii "0x" ++ hexDigits value

def plistDictKeys (node : XmlNode) : List Text :=
  (plistDictChildren node).filterMap fun entry => plistKeyValue entry.1

section Stored
variable (storage : Storage)
variable {node : XmlNode} {text : Text}

theorem storedIn_children (node : XmlNode) :
    (node.storedIn storage).children = node.children.map (XmlNode.storedIn storage) := by
  have listed : ∀ nodes, XmlNode.listStoredIn storage nodes =
      nodes.map (XmlNode.storedIn storage) := by
    intro nodes
    induction nodes with
    | nil => rfl
    | cons node rest ih => rw [XmlNode.listStoredIn, ih, List.map_cons]
  cases node with
  | mk name attributes content real children => exact listed children

theorem storedIn_content
    (content : xmlNodeContent (node.storedIn storage) = some text) : text.storage = storage := by
  cases node with
  | mk name attributes content' real children =>
    simp only [XmlNode.storedIn, xmlNodeContent] at content
    cases real with
    | none =>
      obtain ⟨_, _, same⟩ := Option.map_eq_some_iff.mp content
      rw [← same]
    | some other =>
      obtain ⟨_, _, same⟩ := Option.map_eq_some_iff.mp content
      rw [← same]

theorem storedIn_entries (nodes : List XmlNode) :
    ∀ entry ∈ plistDictEntries (nodes.map (XmlNode.storedIn storage)),
      ∃ key value : XmlNode, entry = (key.storedIn storage, value.storedIn storage) := by
  induction nodes using plistDictEntries.induct with
  | case1 key value rest ih =>
    intro entry member
    simp only [List.map_cons, plistDictEntries, List.mem_cons] at member
    rcases member with same | later
    · exact ⟨key, value, same⟩
    · exact ih entry later
  | case2 nodes short =>
    intro entry member
    cases nodes with
    | nil => cases member
    | cons key rest =>
      cases rest with
      | nil => cases member
      | cons value rest => exact absurd rfl (short key value rest)

theorem storedIn_keys
    (member : text ∈ plistDictKeys (node.storedIn storage)) : text.storage = storage := by
  obtain ⟨entry, inside, key⟩ := List.mem_filterMap.mp member
  rw [plistDictChildren, storedIn_children] at inside
  obtain ⟨keyNode, _, same⟩ := storedIn_entries storage node.children entry inside
  rw [same] at key
  obtain ⟨cast, casted, content⟩ := Option.bind_eq_some_iff.mp key
  have unchanged : cast = keyNode.storedIn storage := by
    simp only [plistNodeCast, plistNodeTypes] at casted
    split at casted
    · cases casted
    · split at casted
      · exact (Option.some.inj casted).symm
      · cases casted
  rw [unchanged] at content
  exact storedIn_content storage content

end Stored

end OpenCore.Plist
