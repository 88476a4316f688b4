import OpenCore.Base
import OpenCore.ByteBuffer
import OpenCore.KeyedList

/-!
The device property database of `OcDevicePropertyLib.c`. A device path stands for
the `GetDevicePathSize` bytes at its pointer, the doubly linked lists are lists,
and a found entry is the first of its key. Whether an allocation succeeds is an
input of the call.
-/

namespace OpenCore.DeviceProperties

open Base ByteBuffer

abbrev CString16 := { units : List UInt16 // 0 ∉ units }

structure PropertyData where
  size : Nat
  data : Bytes
  deriving DecidableEq

structure Property where
  name : PropertyData
  value : PropertyData
  deriving DecidableEq

structure PropertyNode where
  numberOfProperties : Nat
  properties : List Property
  devicePath : Bytes
  deriving DecidableEq

structure Database where
  nodes : List PropertyNode
  modified : Bool
  deriving DecidableEq

section Strings

def unitBytes (unit : UInt16) : Bytes :=
  [UInt8.ofNat unit.toNat, UInt8.ofNat (unit.toNat / 256)]

def strBytes (name : CString16) : Bytes := name.1.flatMap unitBytes ++ [0, 0]

def text : Bytes → List UInt16
  | low :: high :: rest =>
    let unit := UInt16.ofNat (low.toNat + 256 * high.toNat)
    if unit = 0 then [] else unit :: text rest
  | _ => []

theorem unit_bytes (unit : UInt16) :
    UInt16.ofNat ((UInt8.ofNat unit.toNat).toNat + 256 * (UInt8.ofNat (unit.toNat / 256)).toNat) =
      unit := by
  have small := unit.toNat_lt
  apply UInt16.toNat_inj.mp
  simp only [UInt8.toNat_ofNat', UInt16.toNat_ofNat']
  omega

theorem text_strBytes (name : CString16) (behind : Bytes) :
    text (strBytes name ++ behind) = name.1 := by
  obtain ⟨units, noNul⟩ := name
  induction units with
  | nil => rfl
  | cons unit rest ih =>
    have nonzero : unit ≠ 0 := fun zero => noNul (zero ▸ List.mem_cons_self)
    have later := ih fun member => noNul (List.mem_cons_of_mem unit member)
    simp only [strBytes, List.flatMap_cons, unitBytes, List.cons_append, List.nil_append,
      text, unit_bytes, nonzero, if_false, List.cons.injEq, true_and] at later ⊢
    exact later

theorem text_strBytes_alone (name : CString16) : text (strBytes name) = name.1 := by
  have whole := text_strBytes name []
  rwa [List.append_nil] at whole

end Strings

section Search

def compareMemEqual (left right : Bytes) (size : Nat) : Bool := left.take size == right.take size

def samePath (devicePath : Bytes) (node : PropertyNode) : Bool :=
  devicePath.length == node.devicePath.length &&
    compareMemEqual devicePath node.devicePath devicePath.length

def internalGetPropertyNode (db : Database) (devicePath : Bytes) : Option PropertyNode :=
  db.nodes.find? (samePath devicePath)

def Property.key (property : Property) : List UInt16 := text property.name.data

def internalGetProperty (node : PropertyNode) (name : CString16) : Option Property :=
  node.properties.find? fun property => decide (property.key = name.1)

theorem samePath_iff {devicePath : Bytes} {node : PropertyNode} :
    samePath devicePath node = true ↔ node.devicePath = devicePath := by
  constructor
  · intro same
    obtain ⟨sizes, bytes⟩ := Bool.and_eq_true_iff.mp same
    have length : devicePath.length = node.devicePath.length := by simpa using sizes
    have equal : devicePath.take devicePath.length = node.devicePath.take devicePath.length := by
      simpa [compareMemEqual] using bytes
    rw [List.take_length, length, List.take_length] at equal
    exact equal.symm
  · rintro rfl
    simp [samePath, compareMemEqual]

theorem internalGetPropertyNode_eq (db : Database) (devicePath : Bytes) :
    internalGetPropertyNode db devicePath =
      KeyedList.find PropertyNode.devicePath devicePath db.nodes := by
  have same : samePath devicePath = fun node => decide (node.devicePath = devicePath) := by
    funext node
    rw [Bool.eq_iff_iff, samePath_iff, decide_eq_true_iff]
  rw [internalGetPropertyNode, same, KeyedList.find]

theorem internalGetProperty_eq (node : PropertyNode) (name : CString16) :
    internalGetProperty node name = KeyedList.find Property.key name.1 node.properties := rfl

end Search

section Calls

def Database.atNode (db : Database) (devicePath : Bytes)
    (change : PropertyNode → PropertyNode) : Database :=
  { db with
    nodes := KeyedList.change PropertyNode.devicePath devicePath change db.nodes }

def PropertyNode.unlink (name : CString16) (node : PropertyNode) : PropertyNode :=
  { node with
    properties := KeyedList.erase Property.key name.1 node.properties
    numberOfProperties := node.numberOfProperties - 1 }

def PropertyNode.insertTail (property : Property) (node : PropertyNode) : PropertyNode :=
  { node with
    properties := node.properties ++ [property]
    numberOfProperties := node.numberOfProperties + 1 }

def Property.valueSize (property : Property) : Nat := wrapSub u64 property.value.size 4

/-- The value of a get with the size of the caller's buffer: status, required size
and the bytes copied. -/
def dppDbGetProperty (db : Database) (devicePath : Bytes) (name : CString16) (size : Nat) :
    EfiStatus × Nat × Bytes :=
  match internalGetPropertyNode db devicePath with
  | none => (.notFound, size, [])
  | some node =>
    match internalGetProperty node name with
    | none => (.notFound, size, [])
    | some property =>
      if size < property.valueSize then (.bufferTooSmall, property.valueSize, [])
      else (.success, property.valueSize, property.value.data.take property.valueSize)

structure Allocations where
  node : Bool
  property : Bool
  name : Bool
  value : Bool
  deriving DecidableEq

def allAllocated : Allocations := { node := true, property := true, name := true, value := true }

def Allocations.forProperty (allocated : Allocations) : Bool :=
  allocated.property && allocated.name && allocated.value

def newNode (devicePath : Bytes) : PropertyNode :=
  { numberOfProperties := 0, properties := [], devicePath }

def newProperty (name : CString16) (value : Bytes) : Property :=
  { name := { size := ((strBytes name).length + 4) % u32, data := strBytes name }
    value := { size := (value.length + 4) % u32, data := value } }

def Property.holds (property : Property) (value : Bytes) : Bool :=
  property.value.size == value.length + 4 &&
    compareMemEqual property.value.data value value.length

def setInNode (allocated : Allocations) (db : Database) (node : PropertyNode)
    (name : CString16) (value : Bytes) : EfiStatus × Database :=
  let old := internalGetProperty node name
  if old.any (·.holds value) then (.success, db)
  else
    let unlinked := match old with
      | some _ => db.atNode node.devicePath (PropertyNode.unlink name)
      | none => db
    let marked := { unlinked with modified := true }
    if !allocated.property then (.outOfResources, marked)
    else if !allocated.name then (.outOfResources, marked)
    else if !allocated.value then (.outOfResources, marked)
    else
      (.success,
        marked.atNode node.devicePath (PropertyNode.insertTail (newProperty name value)))

def dppDbSetProperty (allocated : Allocations) (db : Database) (devicePath : Bytes)
    (name : CString16) (value : Bytes) : EfiStatus × Database :=
  match internalGetPropertyNode db devicePath with
  | some node => setInNode allocated db node name value
  | none =>
    if !allocated.node then (.outOfResources, db)
    else
      let node := newNode devicePath
      setInNode allocated { nodes := db.nodes ++ [node], modified := true } node name value

def dppDbRemoveProperty (db : Database) (devicePath : Bytes) (name : CString16) :
    EfiStatus × Database :=
  match internalGetPropertyNode db devicePath with
  | none => (.notFound, db)
  | some node =>
    match internalGetProperty node name with
    | none => (.notFound, db)
    | some _ =>
      let unlinked :=
        { db.atNode devicePath (PropertyNode.unlink name) with modified := true }
      if (node.unlink name).numberOfProperties = 0 then
        (.success, { unlinked with
          nodes := KeyedList.erase PropertyNode.devicePath devicePath unlinked.nodes })
      else (.success, unlinked)

end Calls

end OpenCore.DeviceProperties
