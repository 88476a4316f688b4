import OpenCore.ByteSlices
import OpenCore.DevicePropertyBuffer

/-!
The layout of the property buffer: header, and for each node its header, its device
path and its records. The second walk of `DppDbGetPropertyBuffer` writes this
layout, and as many bytes as the first one counted, while no property is as long
as 4 GB.
-/

namespace OpenCore.DevicePropertyLayout

open Base ByteBuffer ByteSlices DeviceProperties DevicePropertyBuffer List

section Layout

variable {nodes : List PropertyNode}

def Fits (property : Property) : Prop := property.name.size + property.value.size < u32

def Recorded (property : Property) : Prop :=
  property.name.size ≤ property.name.data.length + 4 ∧
    property.value.size ≤ property.value.data.length + 4

def propertyBytes (property : Property) : Bytes :=
  recordBytes property.name ++ recordBytes property.value

def recordsBytes (properties : List Property) : Bytes := properties.flatMap propertyBytes

def nodeBytes (node : PropertyNode) : Bytes :=
  encode 4 (nodeSize node) ++ (encode 4 node.numberOfProperties ++
    (node.devicePath ++ recordsBytes node.properties))

def headerBytes (db : Database) : Bytes :=
  encode 4 (bufferSize db) ++ encode 4 databaseVersion ++ encode 4 db.nodes.length

def bufferBytes (db : Database) : Bytes :=
  headerBytes db ++ db.nodes.flatMap nodeBytes

variable {record : PropertyData} {property : Property} {properties : List Property}
  {node : PropertyNode} {db : Database}

theorem recordBytes_length (recorded : record.size ≤ record.data.length + 4) :
    (recordBytes record).length = record.size := by
  rw [recordBytes, length_take, length_append, encode_length]
  omega

theorem propertySize_fits (fits : Fits property) :
    propertySize property = property.name.size + property.value.size := Nat.mod_eq_of_lt fits

theorem propertyBytes_length (recorded : Recorded property) :
    (propertyBytes property).length = property.name.size + property.value.size := by
  rw [propertyBytes, length_append, recordBytes_length recorded.1, recordBytes_length recorded.2]

theorem recordsBytes_length (recorded : ∀ property ∈ properties, Recorded property) :
    (recordsBytes properties).length =
      (properties.map fun property => property.name.size + property.value.size).sum := by
  induction properties with
  | nil => rfl
  | cons property rest ih =>
    have later := ih fun other member => recorded other (mem_cons_of_mem property member)
    rw [recordsBytes, flatMap_cons, length_append, ← recordsBytes, later,
      propertyBytes_length (recorded property mem_cons_self), map_cons, sum_cons]

theorem sizes_fit (fits : ∀ property ∈ properties, Fits property) :
    (properties.map propertySize).sum =
      (properties.map fun property => property.name.size + property.value.size).sum := by
  congr 1
  exact map_congr_left fun property member => propertySize_fits (fits property member)

theorem writeProperties_eq (recorded : ∀ property ∈ properties, Recorded property)
    (fits : ∀ property ∈ properties, Fits property) (buffer : Bytes) (pointer size : Nat) :
    writeProperties properties buffer pointer size =
      (overlay buffer pointer (recordsBytes properties),
        size + (recordsBytes properties).length) := by
  induction properties generalizing buffer pointer size with
  | nil => rfl
  | cons property rest ih =>
    have first := recorded property mem_cons_self
    have later := ih (fun other member => recorded other (mem_cons_of_mem property member))
      fun other member => fits other (mem_cons_of_mem property member)
    have nameLength := recordBytes_length first.1
    have length : (propertyBytes property).length = propertySize property := by
      rw [propertyBytes_length first, propertySize_fits (fits property mem_cons_self)]
    rw [writeProperties, later]
    simp only [recordsBytes, flatMap_cons]
    rw [overlay_append _ (propertyBytes property), length, length_append, length,
      propertyBytes, overlay_append, nameLength, add_assoc]

section

variable (recorded : ∀ property ∈ node.properties, Recorded property)
  (fits : ∀ property ∈ node.properties, Fits property)
include recorded fits

theorem nodeSize_eq :
    nodeSize node = node.devicePath.length + nodeHeader + (recordsBytes node.properties).length := by
  rw [nodeSize, sizes_fit fits, recordsBytes_length recorded, nodePathSize]
  omega

theorem nodeBytes_length :
    (nodeBytes node).length = nodeSize node := by
  rw [nodeSize_eq recorded fits, nodeBytes]
  simp only [length_append, encode_length, nodeHeader]
  omega

-- The four stretches of a node are written out of order and lie behind each other.
theorem writeNode_eq (buffer : Bytes) (place : Nat) :
    writeNode buffer place node =
      (overlay buffer place (nodeBytes node), place + nodeSize node) := by
  have size := nodeSize_eq recorded fits
  have written : ∀ buffer, writeProperties node.properties buffer
      (place + (node.devicePath.length + nodeHeader)) (node.devicePath.length + nodeHeader) =
        (overlay buffer (place + (node.devicePath.length + nodeHeader))
          (recordsBytes node.properties), nodeSize node) := by
    intro buffer
    rw [writeProperties_eq recorded fits, size]
  have laid : overlay buffer place (nodeBytes node) =
      overlay (overlay (overlay (overlay buffer place (encode 4 (nodeSize node)))
        (place + 4) (encode 4 node.numberOfProperties)) (place + nodeHeader) node.devicePath)
        (place + (node.devicePath.length + nodeHeader)) (recordsBytes node.properties) := by
    have next : place + 4 + 4 = place + nodeHeader := rfl
    have last : place + nodeHeader + node.devicePath.length =
        place + (node.devicePath.length + nodeHeader) := by omega
    rw [nodeBytes, overlay_append, overlay_append, overlay_append, encode_length, encode_length,
      next, last]
  rw [writeNode, written, laid]
  congr 1
  rw [overlay_comm _ (by unfold Apart; simp only [encode_length, nodeHeader]; omega)]
  congr 1
  rw [overlay_comm _ (by unfold Apart; simp only [encode_length]; omega)]
  rw [overlay_comm buffer (by unfold Apart; simp only [encode_length, nodeHeader]; omega)]
  rw [overlay_comm _ (by unfold Apart; simp only [encode_length, nodeHeader]; omega)]

end

structure Laid (db : Database) : Prop where
  recorded : ∀ node ∈ db.nodes, ∀ property ∈ node.properties, Recorded property
  fits : ∀ node ∈ db.nodes, ∀ property ∈ node.properties, Fits property

section

variable (recorded : ∀ node ∈ nodes, ∀ property ∈ node.properties, Recorded property)
  (fits : ∀ node ∈ nodes, ∀ property ∈ node.properties, Fits property)
include recorded fits

theorem nodesBytes_length :
    (nodes.flatMap nodeBytes).length = (nodes.map nodeSize).sum := by
  rw [length_flatMap]
  congr 1
  exact map_congr_left fun node member =>
    nodeBytes_length (recorded node member) (fits node member)

theorem writeNodes_eq (buffer : Bytes) (place : Nat) :
    writeNodes nodes buffer place = overlay buffer place (nodes.flatMap nodeBytes) := by
  induction nodes generalizing buffer place with
  | nil => rfl
  | cons node rest ih =>
    have here := recorded node mem_cons_self
    have hereFits := fits node mem_cons_self
    rw [writeNodes, writeNode_eq here hereFits,
      ih (fun other member => recorded other (mem_cons_of_mem node member))
        (fun other member => fits other (mem_cons_of_mem node member)),
      flatMap_cons, overlay_append, nodeBytes_length here hereFits]

end

theorem headerBytes_length (db : Database) : (headerBytes db).length = bufferHeader := by
  simp [headerBytes, bufferHeader]

theorem bufferBytes_length (laid : Laid db) :
    (bufferBytes db).length = bufferSize db := by
  rw [bufferBytes, length_append, headerBytes_length,
    nodesBytes_length laid.recorded laid.fits, bufferSize]

theorem dppDbGetPropertyBuffer_eq (nonempty : db.nodes ≠ []) (laid : Laid db) :
    dppDbGetPropertyBuffer db (replicate (bufferSize db) 0) =
      (.success, bufferSize db, bufferBytes db) := by
  have length := bufferBytes_length laid
  simp only [dppDbGetPropertyBuffer, nonempty, if_false, length_replicate, lt_irrefl,
    writeNodes_eq laid.recorded laid.fits]
  rw [← headerBytes, ← headerBytes_length db, ← zero_add (headerBytes db).length,
    ← overlay_append, ← bufferBytes, overlay_whole]
  rw [length_replicate, length]

/-- The bytes the copies of the second walk take for a node, its header included. -/
def writtenSize (node : PropertyNode) : Nat :=
  nodePathSize node +
    (node.properties.map fun property => property.name.size + property.value.size).sum

theorem sum_propertySize_le (properties : List Property) : (properties.map propertySize).sum ≤
    (properties.map fun property => property.name.size + property.value.size).sum := by
  induction properties with
  | nil => exact le_refl 0
  | cons property rest ih =>
    have small : propertySize property ≤ property.name.size + property.value.size := Nat.mod_le _ _
    simp only [map_cons, sum_cons]
    omega

theorem sum_propertySize_eq (properties : List Property) :
    (properties.map propertySize).sum =
        (properties.map fun property => property.name.size + property.value.size).sum ↔
      ∀ property ∈ properties, Fits property := by
  induction properties with
  | nil => simp
  | cons property rest ih =>
    have least := sum_propertySize_le rest
    have small : propertySize property ≤ property.name.size + property.value.size := Nat.mod_le _ _
    have whole : propertySize property = property.name.size + property.value.size ↔
        Fits property := Nat.mod_eq_iff_lt (by decide)
    simp only [map_cons, sum_cons, mem_cons, forall_eq_or_imp, ← ih, ← whole]
    omega

theorem nodeSize_written : nodeSize node = writtenSize node ↔
    ∀ property ∈ node.properties, Fits property := by
  rw [nodeSize, writtenSize, ← sum_propertySize_eq, add_comm]
  exact Nat.add_left_cancel_iff

end Layout

end OpenCore.DevicePropertyLayout
