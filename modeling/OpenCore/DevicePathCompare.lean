import OpenCore.Base
import OpenCore.ByteBuffer

/-!
The comparison of device paths. A path is the list of its nodes before the end node,
and a name is read character by character: a read outside of it, or of a node that is
not there, is a fault.
-/

namespace OpenCore.DevicePathCompare

open Base ByteBuffer

def mediaDevicePath : Nat := 0x04
def mediaFilepathDp : Nat := 0x04
def endDevicePathType : Nat := 0x7F
def endEntireDevicePathSubtype : Nat := 0xFF

def separator : UInt16 := 0x5C

section Nodes

structure FilePath where
  pathName : List UInt16
  terminated : pathName.getLast? = some 0
  fits : 4 + 2 * pathName.length < u16
  deriving DecidableEq

structure OtherNode where
  type : Nat
  subType : Nat
  body : Bytes
  notEnd : type ≠ endDevicePathType
  notFilePath : ¬ (type = mediaDevicePath ∧ subType = mediaFilepathDp)
  deriving DecidableEq

inductive Node where
  | filePath (node : FilePath)
  | other (node : OtherNode)
  deriving DecidableEq

abbrev DevicePath := List Node

def nodeTypes : DevicePath → Nat × Nat
  | [] => (endDevicePathType, endEntireDevicePathSubtype)
  | .filePath _ :: _ => (mediaDevicePath, mediaFilepathDp)
  | .other node :: _ => (node.type, node.subType)

end Nodes

section Outcomes

inductive Outcome (α : Type) where
  | done (value : α)
  | faults
  | spins
  deriving DecidableEq

variable {α β : Type}

def Outcome.bind : Outcome α → (α → Outcome β) → Outcome β
  | done value, next => next value
  | faults, _ => faults
  | spins, _ => spins

@[simp] theorem Outcome.bind_done (value : α) (next : α → Outcome β) :
    (done value).bind next = next value := rfl

def charAt (name : List UInt16) (index : Nat) : Outcome UInt16 :=
  match name[index]? with
  | some char => .done char
  | none => .faults

end Outcomes

section FilePaths

def charToUpper (char : UInt16) : UInt16 :=
  if 0x61 ≤ char ∧ char ≤ 0x7A then char - 0x20 else char

def trimLen (name : List UInt16) : Nat → Outcome Nat
  | 0 => .done 0
  | len + 1 => (charAt name len).bind fun char => if char = 0 then trimLen name len else .done (len + 1)

def ocFileDevicePathNameLen (name : List UInt16) : Outcome Nat :=
  trimLen name (wrapSub u64 name.length 1)

/-- `InternalFileDevicePathsEqualClipBottom`: whether a separator was clipped, the length
and the index. -/
def clipBottom (name : List UInt16) (length index : Nat) : Outcome (Bool × Nat × Nat) :=
  (charAt name index).bind fun char =>
    if char = separator then .done (true, length - 1, index + 1) else .done (false, length, index)

structure Cursor where
  path : DevicePath
  length : Nat
  index : Nat
  deriving DecidableEq

def clipName (name : List UInt16) : Outcome (Nat × Nat) :=
  (ocFileDevicePathNameLen name).bind fun length =>
    if length = 0 then .done (0, 0)
    else
      (clipBottom name length 0).bind fun clipped =>
        if 0 < clipped.2.1 then
          (charAt name (clipped.2.2 + clipped.2.1 - 1)).bind fun char =>
            .done (if char = separator then clipped.2.1 - 1 else clipped.2.1, clipped.2.2)
        else .done (clipped.2.1, clipped.2.2)

/-- `InternalFileDevicePathsEqualClipNode`: on to a name that is not empty, or behind
the file names. -/
def clipNode : DevicePath → Outcome Cursor
  | .filePath node :: rest =>
    (clipName node.pathName).bind fun clipped =>
      if clipped.1 = 0 then clipNode rest
      else .done { path := .filePath node :: rest, length := clipped.1, index := clipped.2 }
  | path => .done { path, length := 0, index := 0 }

def clipNextNode : DevicePath → Outcome Cursor
  | [] => .faults
  | _ :: rest => clipNode rest

def nameAt (cursor : Cursor) : Outcome (List UInt16) :=
  match cursor.path with
  | .filePath node :: _ => .done node.pathName
  | _ => .faults

def sameChars (name1 name2 : List UInt16) : Nat → Nat → Nat → Outcome Bool
  | 0, _, _ => .done true
  | count + 1, index1, index2 =>
    (charAt name1 index1).bind fun char1 =>
      (charAt name2 index2).bind fun char2 =>
        if charToUpper char1 ≠ charToUpper char2 then .done false
        else sameChars name1 name2 count (index1 + 1) (index2 + 1)

/-- The loop of `InternalFileDevicePathsEqualWorker`: none is `FALSE`, else the nodes behind
the names. -/
def equalLoop : Nat → Cursor → Cursor → Outcome (Option (DevicePath × DevicePath))
  | 0, _, _ => .spins
  | turns + 1, cursor1, cursor2 =>
    let currentLen := min cursor1.length cursor2.length
    if cursor1.length = 0 ∧ cursor2.length = 0 then .done (some (cursor1.path, cursor2.path))
    else if currentLen = 0 then .done none
    else
      (nameAt cursor1).bind fun name1 =>
      (nameAt cursor2).bind fun name2 =>
      (sameChars name1 name2 currentLen cursor1.index cursor2.index).bind fun same =>
      if same = false then .done none
      else if cursor1.length = cursor2.length then
        (clipNextNode cursor1.path).bind fun next1 =>
          (clipNextNode cursor2.path).bind fun next2 => equalLoop turns next1 next2
      else if cursor1.length < cursor2.length then
        (clipNextNode cursor1.path).bind fun next1 =>
          if next1.length = 0 then .done none
          else
            (clipBottom name2 (cursor2.length - currentLen) (cursor2.index + currentLen)).bind
              fun clipped =>
            if clipped.1 = false then .done none
            else equalLoop turns next1 { cursor2 with length := clipped.2.1, index := clipped.2.2 }
      else
        (clipNextNode cursor2.path).bind fun next2 =>
          if next2.length = 0 then .done none
          else
            (clipBottom name1 (cursor1.length - currentLen) (cursor1.index + currentLen)).bind
              fun clipped =>
            if clipped.1 = false then .done none
            else equalLoop turns { cursor1 with length := clipped.2.1, index := clipped.2.2 } next2

def equalWorker (path1 path2 : DevicePath) : Outcome (Option (DevicePath × DevicePath)) :=
  (clipNode path1).bind fun cursor1 =>
    (clipNode path2).bind fun cursor2 =>
      equalLoop (path1.length + path2.length + 1) cursor1 cursor2

end FilePaths

section Paths

def cmpLoop (checkChild : Bool) : Nat → DevicePath → DevicePath → Outcome Bool
  | 0, _, _ => .spins
  | _ + 1, parent, [] => .done (checkChild || decide ((nodeTypes parent).1 = endDevicePathType))
  | turns + 1, parent, child :: rest =>
    if (nodeTypes parent).1 ≠ (nodeTypes (child :: rest)).1 ∨
        (nodeTypes parent).2 ≠ (nodeTypes (child :: rest)).2 then .done false
    else
      match child, parent with
      | .filePath _, _ =>
        (equalWorker parent (child :: rest)).bind fun
          | none => .done false
          | some behind => cmpLoop checkChild turns behind.1 behind.2
      | .other node, .other parentNode :: parentRest =>
        if parentNode.body.length ≠ node.body.length then .done false
        else if node.body ≠ parentNode.body then .done false
        else cmpLoop checkChild turns parentRest rest
      | .other _, _ => .faults

def internalDevicePathCmpWorker (parent child : DevicePath) (checkChild : Bool) : Outcome Bool :=
  cmpLoop checkChild (child.length + 1) parent child

def isDevicePathEqual (devicePath1 devicePath2 : DevicePath) : Outcome Bool :=
  internalDevicePathCmpWorker devicePath1 devicePath2 false

def isDevicePathChild (parentPath childPath : DevicePath) : Outcome Bool :=
  internalDevicePathCmpWorker parentPath childPath true

end Paths

end OpenCore.DevicePathCompare
