import OpenCore.DeviceProperties

/-!
The property buffer of `OcDevicePropertyLib.c`: written by
`DppDbGetPropertyBuffer`, stored as numbered variables by
`OcDevicePathPropertyInstallProtocol` and read back by
`InternalReadEfiVariableProperties`. The variable services and
`GetDevicePathSize` are code of the firmware and of the base libraries.
Allocations succeed here.
-/

namespace OpenCore.DevicePropertyBuffer

open Base ByteBuffer DeviceProperties

section Writer

def bufferHeader : Nat := 12
def nodeHeader : Nat := 8
def databaseVersion : Nat := 1

def propertySize (property : Property) : Nat := (property.name.size + property.value.size) % u32

def nodePathSize (node : PropertyNode) : Nat := nodeHeader + node.devicePath.length

def nodeSize (node : PropertyNode) : Nat :=
  (node.properties.map propertySize).sum + nodePathSize node

def bufferSize (db : Database) : Nat := bufferHeader + (db.nodes.map nodeSize).sum

/-- The bytes `CopyMem` takes from a record: as many as the record says of itself. -/
def recordBytes (record : PropertyData) : Bytes := (encode 4 record.size ++ record.data).take record.size

/-- The loop over the properties of a node, with `BufferPtr` and `BufferSize`. -/
def writeProperties : List Property → Bytes → Nat → Nat → Bytes × Nat
  | [], buffer, _, size => (buffer, size)
  | property :: rest, buffer, pointer, size =>
    let named := overlay buffer pointer (recordBytes property.name)
    let valued := overlay named (pointer + property.name.size) (recordBytes property.value)
    writeProperties rest valued (pointer + propertySize property) (size + propertySize property)

/-- One turn of the second walk: the buffer, and the place of the next node. -/
def writeNode (buffer : Bytes) (place : Nat) (node : PropertyNode) : Bytes × Nat :=
  let pathed := overlay buffer (place + nodeHeader) node.devicePath
  let counted := overlay pathed (place + 4) (encode 4 node.numberOfProperties)
  let size := node.devicePath.length + nodeHeader
  let written := writeProperties node.properties counted (place + size) size
  (overlay written.1 place (encode 4 written.2), place + written.2)

def writeNodes : List PropertyNode → Bytes → Nat → Bytes
  | [], buffer, _ => buffer
  | node :: rest, buffer, place =>
    let written := writeNode buffer place node
    writeNodes rest written.1 written.2

/-- `DppDbGetPropertyBuffer`: status, required size and the buffer as it is left. -/
def dppDbGetPropertyBuffer (db : Database) (buffer : Bytes) : EfiStatus × Nat × Bytes :=
  if db.nodes = [] then (.success, 0, buffer)
  else
    let size := bufferSize db
    if buffer.length < size then (.bufferTooSmall, size, buffer)
    else
      let header := encode 4 size ++ encode 4 databaseVersion ++ encode 4 db.nodes.length
      (.success, size, writeNodes db.nodes (overlay buffer 0 header) bufferHeader)

end Writer

section Variables

def variableMaxSize : Nat := 768
def variableMaxNum : Nat := 0x10000

def indexDigits (index : Nat) : List Char :=
  [index / 4096, index / 256 % 16, index / 16 % 16, index % 16].map Nat.digitChar

def variableName (index : Nat) : List Char := "AAPL,PathProperties".toList ++ indexDigits index

/-- `GetVariable` with the size of the caller's buffer: status, size and data; and
`SetVariable`, where no data deletes. -/
structure VariableServices (σ : Type) where
  getVariable : σ → List Char → Nat → EfiStatus × Nat × Bytes
  setVariable : σ → List Char → Bytes → EfiStatus × σ

variable {σ : Type} (services : VariableServices σ)

def writeVariables : Nat → Nat → Bytes → σ → EfiStatus × Nat × Bytes × σ
  | 0, index, data, nvram => (.success, index, data, nvram)
  | left + 1, index, data, nvram =>
    if data = [] then (.success, index, data, nvram)
    else
      let stored := services.setVariable nvram (variableName index) (data.take variableMaxSize)
      if stored.1.isError then (stored.1, index, data, stored.2)
      else writeVariables left (index + 1) (data.drop variableMaxSize) stored.2

def deleteVariables : Nat → Nat → σ → EfiStatus × σ
  | 0, _, nvram => (.success, nvram)
  | left + 1, index, nvram =>
    if (services.getVariable nvram (variableName index) 0).1 ≠ .bufferTooSmall then
      (.success, nvram)
    else
      let deleted := services.setVariable nvram (variableName index) []
      if deleted.1.isError then deleted else deleteVariables left (index + 1) deleted.2

/-- The part of `OcDevicePathPropertyInstallProtocol` that stores a modified
database. -/
def storeProperties (db : Database) (nvram : σ) : Option σ :=
  let asked := dppDbGetPropertyBuffer db []
  if asked.1 ≠ .bufferTooSmall then none
  else
    let filled := dppDbGetPropertyBuffer db (List.replicate asked.2.1 0)
    if filled.1.isError then none
    else
      let (status, index, left, nvram) := writeVariables services variableMaxNum 0 filled.2.2 nvram
      if status.isError ∨ left ≠ [] then none
      else
        let deleted := deleteVariables services (variableMaxNum - index) index nvram
        if deleted.1.isError then none else some deleted.2

/-- The first loop of the reader: the number of variables tried, and their sizes
added up. No result on overflow. -/
def sizeVariables (nvram : σ) : Nat → Nat → Nat → Option (Nat × Nat)
  | 0, number, size => some (number, size)
  | left + 1, number, size =>
    let answer := services.getVariable nvram (variableName number) 0
    match baseOverflowAdd u64 size answer.2.1 with
    | none => none
    | some total =>
      if answer.1 = .bufferTooSmall then sizeVariables nvram left (number + 1) total
      else some (number + 1, total)

def readVariables (deleteVariables : Bool) : Nat → Nat → Nat → σ → Bytes → EfiStatus × Bytes × σ
  | 0, _, _, nvram, data => (.success, data, nvram)
  | left + 1, index, room, nvram, data =>
    let answer := services.getVariable nvram (variableName index) room
    if answer.1.isError then (answer.1, data, nvram)
    else
      let deleted :=
        if deleteVariables then services.setVariable nvram (variableName index) []
        else (.success, nvram)
      if deleted.1.isError then (deleted.1, data ++ answer.2.2, deleted.2)
      else
        readVariables deleteVariables left (index + 1) (room - answer.2.1) deleted.2
          (data ++ answer.2.2)

end Variables

section Reader

variable (getDevicePathSize : Bytes → Nat)

def readName : Bytes → Option (List UInt16)
  | low :: high :: rest =>
    let unit := UInt16.ofNat (low.toNat + 256 * high.toNat)
    if unit = 0 then some [] else (readName rest).map (unit :: ·)
  | _ => none

theorem readName_noNul : ∀ {memory : Bytes} {units : List UInt16},
    readName memory = some units → 0 ∉ units
  | [], _, read => by cases read
  | [_], _, read => by cases read
  | low :: high :: rest, units, read => by
      rw [readName] at read
      split at read
      · cases read
        exact List.not_mem_nil
      · next nonzero =>
          obtain ⟨later, reads, rfl⟩ := Option.map_eq_some_iff.mp read
          have behind := readName_noNul reads
          intro member
          rcases List.mem_cons.mp member with zero | inside
          · exact nonzero zero.symm
          · exact behind inside

def readString (memory : Bytes) : Option CString16 :=
  match read : readName memory with
  | none => none
  | some units => some ⟨units, readName_noNul read⟩

/-- What one call of `SetProperty` is given: none when the value has no room for its
size field, or the string or the value leaves the memory. -/
def readProperty (memory : Bytes) (nameData valueData : Nat) : Option (CString16 × Bytes) :=
  let size := load memory 4 valueData
  if 4 ≤ size ∧ valueData + size ≤ memory.length then
    (readString (memory.drop (nameData + 4))).map fun name =>
      (name, (memory.drop (valueData + 4)).take (size - 4))
  else none

def readProperties (memory devicePath : Bytes) : Nat → Nat → Nat → Database → Option Database
  | 0, _, _, db => some db
  | left + 1, nameData, valueData, db =>
    (readProperty memory nameData valueData).bind fun property =>
      let set := (dppDbSetProperty allAllocated db devicePath property.1 property.2).2
      let nextName := valueData + load memory 4 valueData
      let nextValue := valueData + load memory 4 valueData + load memory 4 nextName
      readProperties memory devicePath left nextName nextValue set

/-- The loop over the nodes. The first record of a node is looked for behind
`sizeof (*Buffer)` bytes and the device path. -/
def readNodes (memory : Bytes) : Nat → Nat → Database → Option Database
  | 0, _, db => some db
  | left + 1, place, db =>
    let dataSize := getDevicePathSize (memory.drop (place + nodeHeader))
    let properties := load memory 4 (place + 4)
    let nameData := place + dataSize + bufferHeader
    let after :=
      if 0 < properties then
        readProperties memory ((memory.drop (place + nodeHeader)).take dataSize) properties
          nameData (nameData + load memory 4 nameData) db
      else some db
    after.bind fun db => readNodes memory left (place + load memory 4 place) db

/-- `InternalReadEfiVariableProperties`; `behind` is the memory behind the buffer. No
result when a property that is set leaves that memory. -/
def internalReadEfiVariableProperties {σ : Type} (services : VariableServices σ)
    (deleteVariables : Bool) (behind : Bytes) (nvram : σ) (db : Database) :
    Option (EfiStatus × Database) :=
  match sizeVariables services nvram variableMaxNum 0 0 with
  | none => some (.outOfResources, db)
  | some (number, size) =>
    if size < bufferHeader then some (.success, db)
    else
      let (status, data, _) := readVariables services deleteVariables number 0 size nvram []
      let buffer := data ++ List.replicate (size - data.length) 0
      if load buffer 4 0 ≠ size ∨ load buffer 4 4 ≠ databaseVersion ∨ load buffer 4 8 = 0 then
        some (.success, db)
      else if status.isError then some (status, db)
      else
        (readNodes getDevicePathSize (buffer ++ behind) (load buffer 4 8) bufferHeader
          db).map fun read => (.success, read)

end Reader

end OpenCore.DevicePropertyBuffer
