import OpenCore.Base
import OpenCore.PatchScan

/-!
`AcpiLoadRegions` and `AcpiRelocateRegions`: the memory regions of the firmware are
collected by name and address before the tables are replaced, and written into the
tables that replace them. Both scan the bytes of a table for a region; scopes are
not followed, so a name is four characters wherever it stands. Whether the list of
the regions can grow, and whether a table is writable or can be copied, are inputs.
-/

namespace OpenCore.AcpiRegions

open Base ByteBuffer

def ocAcpiNameSize : Nat := 4
def acpiDescriptionHeaderSize : Nat := 36
def lengthField : Nat := 4
def checksumField : Nat := 9
def amlNameOp : Nat := 0x08
def amlWordPrefix : Nat := 0x0B
def amlDwordPrefix : Nat := 0x0C
def amlExtOp : Nat := 0x5B
def amlExtRegionOp : Nat := 0x80
def systemMemory : Nat := 0
def secondaryTableSignature : Nat := 0x54445353

structure Region where
  name : Bytes
  address : Nat
  deriving DecidableEq

section Scanners

def acceptsNameByte (byte : Nat) : Bool :=
  !(byte < 0x2F || 0x39 < byte && byte < 0x41 || 0x5A < byte && byte != 0x5F)

def acpiReadName (table : Bytes) (offset : Nat) : Option (Bytes × Nat) :=
  let off := if byteAt table offset = 0x5C then 1 else 0
  let name := (List.range ocAcpiNameSize).map fun index => table.getD (offset + off + index) 0
  if name.all fun byte => acceptsNameByte byte.toNat then some (name, off) else none

def findNameFrom (table name : Bytes) : Nat → Nat → Nat
  | 0, _ => 0
  | count + 1, index =>
    if byteAt table index = amlNameOp ∧
        (List.range ocAcpiNameSize).map (fun place => table.getD (index + 1 + place) 0) = name then
      index + 1
    else findNameFrom table name count (index + 1)

def acpiFindName (table : Bytes) (length : Nat) (name : Bytes) : Nat :=
  if length < ocAcpiNameSize + 1 then 0 else findNameFrom table name (length - ocAcpiNameSize) 0

def constantAt (table : Bytes) (offset : Nat) : Option (Nat × Nat) :=
  if byteAt table offset = amlDwordPrefix then some (offset + 1, 4)
  else if byteAt table offset = amlWordPrefix then some (offset + 1, 2)
  else none

/-- Where the address of a region is kept: in the region, or in the constant it
names. -/
def addressOperand (table : Bytes) (bufferLen offset : Nat) : Option (Nat × Nat) :=
  if byteAt table offset = amlDwordPrefix ∨ byteAt table offset = amlWordPrefix then
    constantAt table offset
  else
    (acpiReadName table offset).bind fun read =>
      let index := acpiFindName table bufferLen read.1
      if 0 < index ∧ index < bufferLen - 0xF then constantAt table (index + ocAcpiNameSize) else none

def regionAt (table : Bytes) (bufferLen index : Nat) : Option (Bytes × Option (Nat × Nat)) :=
  if byteAt table index = amlExtOp ∧ byteAt table (index + 1) = amlExtRegionOp then
    (acpiReadName table (index + 2)).bind fun read =>
      if byteAt table (index + ocAcpiNameSize + 2 + read.2) = systemMemory then
        some (read.1, addressOperand table bufferLen (index + ocAcpiNameSize + 3 + read.2))
      else none
  else none

def bufferLength (table : Bytes) : Nat := load table 4 lengthField

def positions (table : Bytes) : List Nat :=
  if bufferLength table < acpiDescriptionHeaderSize then []
  else List.range' acpiDescriptionHeaderSize (bufferLength table - 0xF - acpiDescriptionHeaderSize)

end Scanners

section Load

variable (allocates : Nat → Bool)

structure RegionList where
  regions : List Region
  allocated : Nat

def saveRegion (list : RegionList) (region : Region) : Option RegionList :=
  if list.allocated = list.regions.length then
    if allocates (list.allocated + 2) then
      some ⟨list.regions ++ [region], list.allocated + 2⟩
    else none
  else some { list with regions := list.regions ++ [region] }

def freshAddress (list : RegionList) (address : Nat) : Nat :=
  if list.regions.any fun region => region.address = address then 0 else address

def loadRegionsAt (table : Bytes) : List Nat → RegionList → EfiStatus × RegionList
  | [], list => (.success, list)
  | index :: rest, list =>
    match regionAt table (bufferLength table) index with
    | none => loadRegionsAt table rest list
    | some (name, operand) =>
      let address :=
        freshAddress list ((operand.map fun place => load table place.2 place.1).getD 0)
      if address ≠ 0 then
        match saveRegion allocates list ⟨name, address⟩ with
        | none => (.outOfResources, list)
        | some grown => loadRegionsAt table rest grown
      else loadRegionsAt table rest list

def acpiLoadTableRegions (table : Bytes) (list : RegionList) : EfiStatus × RegionList :=
  loadRegionsAt allocates table (positions table) list

structure AcpiTables where
  dsdt : Option Bytes
  tables : List Bytes
  deriving DecidableEq

def isSecondary (table : Bytes) : Bool := load table 4 0 = secondaryTableSignature

def AcpiTables.scanned (tables : AcpiTables) : List Bytes :=
  tables.dsdt.toList ++ tables.tables.filter isSecondary

def loadTables : List Bytes → RegionList → EfiStatus × RegionList
  | [], list => (.success, list)
  | table :: rest, list =>
    match acpiLoadTableRegions allocates table list with
    | (.success, grown) => loadTables rest grown
    | failed => failed

def acpiLoadRegions (tables : AcpiTables) : EfiStatus × RegionList :=
  if allocates 8 then loadTables allocates tables.scanned ⟨[], 8⟩ else (.outOfResources, ⟨[], 8⟩)

end Load

section Relocate

variable (regions : List Region)

def relocateRegionsAt (bufferLen : Nat) : List Nat → Bytes × Bool → Bytes × Bool
  | [], state => state
  | index :: rest, state =>
    match regionAt state.1 bufferLen index with
    | none => relocateRegionsAt bufferLen rest state
    | some (name, operand) =>
      match regions.find? fun region => region.name = name with
      | none => relocateRegionsAt bufferLen rest state
      | some region =>
        match operand with
        | none => relocateRegionsAt bufferLen rest state
        | some (offset, width) =>
          relocateRegionsAt bufferLen rest
            (store state.1 width offset region.address, true)

def calculateCheckSum8 (bytes : Bytes) : Nat :=
  (0x100 - (bytes.map UInt8.toNat).sum % 0x100) % 0x100

def updateChecksum (table : Bytes) : Bytes :=
  let cleared := store table 1 checksumField 0
  store cleared 1 checksumField (calculateCheckSum8 (cleared.take (bufferLength cleared)))

def acpiRelocateTableRegions (table : Bytes) : Bytes :=
  let relocated := relocateRegionsAt regions (bufferLength table) (positions table) (table, false)
  if relocated.2 then updateChecksum relocated.1 else relocated.1

variable (available : Nat → Bool)

/-- The loop of `AcpiRelocateRegions` over `Tables`; it ends at a table that is
neither writable nor can be copied. -/
def relocateTables : Nat → List Bytes → List Bytes
  | _, [] => []
  | slot, table :: rest =>
    if isSecondary table then
      if available slot then
        acpiRelocateTableRegions regions table :: relocateTables (slot + 1) rest
      else table :: rest
    else table :: relocateTables (slot + 1) rest

def acpiRelocateRegions (tables : AcpiTables) : AcpiTables :=
  if regions.length = 0 then tables
  else
    match tables.dsdt with
    | none => { tables with tables := relocateTables regions available 1 tables.tables }
    | some dsdt =>
      if available 0 then
        ⟨some (acpiRelocateTableRegions regions dsdt),
          relocateTables regions available 1 tables.tables⟩
      else tables

end Relocate

end OpenCore.AcpiRegions
