import OpenCore.Base
import OpenCore.ByteSlices
import Mathlib.Data.List.DropRight

/-!
The writer of the SMBIOS table. A structure is a formatted area and its strings behind it,
all in one allocation that grows by pages; the terminators are never written, they are what
is left of the zeroes that the allocation was filled with. A pointer is an offset in the
allocation, an operation that leaves the allocation has no result, and whether a
reallocation succeeds is an input.
-/

namespace OpenCore.SmbiosTable

open Base ByteBuffer

section Source

def smbiosTableMaxLength : Nat := 0xFFFF
def smbiosStringMaxLength : Nat := 64
def smbiosStructureTerminatorSize : Nat := 2
def efiPageSize : Nat := 4096
def smbiosTypeEndOfTable : UInt8 := 127

def alignValue (value alignment : Nat) : Nat := (value + alignment - 1) / alignment * alignment

structure OcSmbiosTable where
  table : Bytes
  currentPtr : Nat
  currentStrPtr : Nat
  handle : Nat
  maxStructureSize : Nat
  numberOfStructures : Nat
  deriving DecidableEq

def OcSmbiosTable.write (table : OcSmbiosTable) (place : Nat) (data : Bytes) :
    Option OcSmbiosTable :=
  if place + data.length ≤ table.table.length then
    some { table with table := overlay table.table place data }
  else none

def smbiosExtendTable (reallocated : Bool) (table : OcSmbiosTable) (size : Nat) :
    Option (EfiStatus × OcSmbiosTable) :=
  let size := size + smbiosStructureTerminatorSize
  let tableSize := if table.table = [] then 0 else table.currentStrPtr
  let requestedSize := tableSize + size
  if requestedSize > smbiosTableMaxLength then some (.outOfResources, table)
  else if requestedSize ≤ table.table.length then some (.success, table)
  else
    let requestedSize :=
      min (alignValue requestedSize efiPageSize) (alignValue smbiosTableMaxLength efiPageSize)
    if ¬reallocated then some (.outOfResources, table)
    else if table.table.length < tableSize then none
    else
      some (.success, { table with
        table := table.table.take tableSize ++ List.replicate (requestedSize - tableSize) 0
        currentStrPtr := tableSize })

def trimmedLength (string : Bytes) : Nat → Nat
  | 0 => 0
  | length + 1 => if string[length]? = some 0x20 then trimmedLength string length else length + 1

/-- `SmbiosSetString` at the current string pointer, with the index of the string before. -/
def smbiosSetString (table : OcSmbiosTable) (string : Bytes) (length index : Nat) :
    Option (Nat × OcSmbiosTable) :=
  (table.write table.currentStrPtr (string.take length)).map fun table =>
    ((index + 1) % 256, { table with currentStrPtr := table.currentStrPtr + (length + 1) })

def smbiosOverrideString (reallocated : Bool) (table : OcSmbiosTable) (override : Option Bytes)
    (index : Nat) : Option (Nat × Nat × OcSmbiosTable) :=
  match override with
  | none => some (0, index, table)
  | some string =>
    let length := trimmedLength string (min string.length smbiosStringMaxLength)
    if length = 0 then some (0, index, table)
    else
      match smbiosExtendTable reallocated table (length + 1) with
      | none => none
      | some (status, table) =>
        if status.isError then some (0, index, table)
        else
          (smbiosSetString table string length index).map fun (index, table) =>
            (index, index, table)

def multipleTypes : List UInt8 := [4, 7, 8, 9, 16, 19, 17, 20]

/-- The types with a handle of their own, in the order of the handles from 1 on. -/
def reservedTypes : List UInt8 :=
  [0, 1, 2, 3, 5, 6, 10, 11, 12, 13, 14, 15, 18, 21, 22, 23, 24, 25, 26, 27, 28, 29, 30, 31, 32,
    33, 34, 35, 36, 37, 38, 39, 40, 41, 42, 43, 126, 127, 128, 130, 131, 132, 133, 134]

def structHandle (table : OcSmbiosTable) (type : UInt8) : Nat :=
  if type ∉ multipleTypes ∧ type ∈ reservedTypes then reservedTypes.idxOf type + 1
  else table.handle

def smbiosAssignStructHandle (table : OcSmbiosTable) (type : UInt8) (index : Nat) :
    Option (EfiStatus × OcSmbiosTable) :=
  if type ∉ multipleTypes ∧ index ≠ 1 then some (.invalidParameter, table)
  else
    (table.write (table.currentPtr + 2) (encode 2 (structHandle table type))).map fun table =>
      if type ∉ multipleTypes ∧ type ∈ reservedTypes then (.success, table)
      else (.success, { table with handle := (table.handle + 1) % u16 })

def smbiosInitialiseStruct (reallocated : Bool) (table : OcSmbiosTable) (type minLength : UInt8)
    (index : Nat) : Option (EfiStatus × OcSmbiosTable) :=
  match smbiosExtendTable reallocated table minLength.toNat with
  | none => none
  | some (status, table) =>
    if status.isError then some (status, table)
    else
      match table.write table.currentPtr [type, minLength] with
      | none => none
      | some table =>
        (smbiosAssignStructHandle table type index).map fun (status, table) =>
          if status.isError then (status, table)
          else
            (.success, { table with currentStrPtr := table.currentPtr + minLength.toNat })

def smbiosFinaliseStruct (table : OcSmbiosTable) : Option OcSmbiosTable :=
  table.table[table.currentPtr + 1]?.map fun length =>
    let behind := table.currentPtr + length.toNat
    let next := if table.currentStrPtr ≠ behind then table.currentStrPtr + 1 else behind + 2
    { table with
      maxStructureSize := max table.maxStructureSize length.toNat
      numberOfStructures := (table.numberOfStructures + 1) % u16
      currentPtr := next
      currentStrPtr := next }

end Source

end OpenCore.SmbiosTable
