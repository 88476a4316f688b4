import OpenCore.Base
import OpenCore.Cells

/-!
`OC_FLEX_ARRAY`. `Items` is the pool memory behind the pointer, none when it is
`NULL`. What an allocation gives, if anything, is an input of the call, and each
call tells the stretches of `Items` it writes.
-/

namespace OpenCore.FlexArray

open Base ByteBuffer ByteSlices Cells

def initialNumItems : Nat := 8

abbrev Write := Nat × Nat

structure FreeItem where
  leaves : Bytes → Bytes
  length : ∀ item, (leaves item).length = item.length

structure OcFlexArray where
  items : Option Bytes
  itemSize : Nat
  count : Nat
  allocatedCount : Nat
  freeItem : Option FreeItem

abbrev Allocation := Option (Nat → UInt8)

def poolBytes (contents : Nat → UInt8) (size : Nat) : Bytes := (List.range size).map contents

def ocFlexArrayInit (itemSize : Nat) (freeItem : Option FreeItem) : OcFlexArray :=
  { items := none, itemSize, count := 0, allocatedCount := 0, freeItem }

section Calls

abbrev Added := OcFlexArray × Option (Nat × Bytes)

/-- `InternalFlexArrayAddItem`: the array behind the call, and the index of the item
with the memory it lies in, unless `NULL` is returned. -/
def internalFlexArrayAddItem (allocation : Allocation) (array : OcFlexArray) : Added :=
  match array.items with
  | none =>
    let reserved := { array with allocatedCount := initialNumItems }
    match baseOverflowMul u64 initialNumItems array.itemSize with
    | none => (reserved, none)
    | some newSize =>
      let counted := { reserved with count := 1 }
      match allocation with
      | none => (counted, none)
      | some contents =>
        let memory := poolBytes contents newSize
        ({ counted with items := some memory }, some (0, memory))
  | some memory =>
    let counted := { array with count := array.count + 1 }
    if array.allocatedCount < counted.count then
      match baseOverflowMul u64 (array.allocatedCount * array.itemSize % u64) 2 with
      | none => (counted, none)
      | some newSize =>
        match allocation with
        | none => (counted, none)
        | some contents =>
          let oldSize := array.allocatedCount * array.itemSize % u64
          let kept := memory.take oldSize
          let grown := kept ++ poolBytes contents (newSize - oldSize)
          ({ counted with items := some grown, allocatedCount := array.allocatedCount * 2 },
            some (counted.count - 1, grown))
    else (counted, some (counted.count - 1, memory))

def zeroItem (array : OcFlexArray) (index : Nat) (memory : Bytes) : OcFlexArray :=
  { array with
    items := some (overlay memory (index * array.itemSize) (List.replicate array.itemSize 0)) }

abbrev Answer := OcFlexArray × Option Nat × List Write

def ocFlexArrayAddItem (allocation : Allocation) (array : OcFlexArray) : Answer :=
  match internalFlexArrayAddItem allocation array with
  | (after, none) => (after, none, [])
  | (after, some (index, memory)) =>
    (zeroItem after index memory, some index, [(index * after.itemSize, after.itemSize)])

def ocFlexArrayInsertItem (allocation : Allocation) (insertIndex : Nat) (array : OcFlexArray) :
    Answer :=
  if insertIndex = array.count then ocFlexArrayAddItem allocation array
  else
    match internalFlexArrayAddItem allocation array with
    | (after, none) => (after, none, [])
    | (after, some (_, memory)) =>
      let item := insertIndex * after.itemSize
      let dest := (insertIndex + 1) * after.itemSize
      let size := (after.count - insertIndex) * after.itemSize
      let copied := overlay memory dest (slice memory item size)
      (zeroItem after insertIndex copied, some insertIndex,
        [(dest, size), (item, after.itemSize)])

def ocFlexArrayDiscardItem (freeItem : Bool) (array : OcFlexArray) : OcFlexArray × List Write :=
  let last := array.count - 1
  let discarded := { array with count := array.count - 1 }
  match array.items, array.freeItem with
  | some memory, some free =>
    if freeItem then
      let freed := free.leaves (cell memory array.itemSize last)
      ({ discarded with items := some (overlay memory (last * array.itemSize) freed) },
        [(last * array.itemSize, freed.length)])
    else (discarded, [])
  | _, _ => (discarded, [])

def writeItem (index : Nat) (data : Bytes) (array : OcFlexArray) : OcFlexArray × List Write :=
  match array.items with
  | none => (array, [])
  | some memory =>
    ({ array with items := some (overlay memory (index * array.itemSize) data) },
      [(index * array.itemSize, data.length)])

end Calls

end OpenCore.FlexArray
