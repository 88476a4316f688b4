import Mathlib.Data.List.Basic
import OpenCore.Base

/-!
`OcSplitMemoryMapByAttributes`: the memory map is split by the memory attributes table,
so that its runtime descriptors have the type their attributes ask for. The map is an
array that grows while it is walked, by copying what follows a descriptor one slot up.
Addresses and page counts are 64-bit.
-/

namespace OpenCore.MemoryAttributes

open Base

structure MemoryDescriptor where
  type : Nat
  physicalStart : Nat
  numberOfPages : Nat
  attributeFlags : Nat
  deriving DecidableEq

def efiRuntimeServicesCode : Nat := 5
def efiRuntimeServicesData : Nat := 6
def efiMemoryXp : Nat := 0x4000
def efiMemoryRo : Nat := 0x20000

def efiPageSize : Nat := 0x1000

@[simp] theorem efiPageSize_val : efiPageSize = 4096 := rfl

def efiPagesToSize (pages : Nat) : Nat := pages * efiPageSize % u64

def efiSizeToPages (size : Nat) : Nat :=
  size / efiPageSize + if size % efiPageSize ≠ 0 then 1 else 0

def lastDescriptorAddr (desc : MemoryDescriptor) : Nat :=
  (desc.physicalStart + wrapSub u64 (efiPagesToSize desc.numberOfPages) 1) % u64

def areaWithinDescriptor (desc : MemoryDescriptor) (area areaSize : Nat) : Bool :=
  desc.physicalStart ≤ area && (area + wrapSub u64 areaSize 1) % u64 ≤ lastDescriptorAddr desc

def isRuntime (type : Nat) : Bool :=
  type == efiRuntimeServicesCode || type == efiRuntimeServicesData

def ocRealMemoryType (memoryAttribute : MemoryDescriptor) : Nat :=
  if memoryAttribute.attributeFlags &&& efiMemoryRo ≠ 0 then efiRuntimeServicesCode
  else if memoryAttribute.attributeFlags &&& efiMemoryXp ≠ 0 then efiRuntimeServicesData
  else memoryAttribute.type

section Split

def copyUp (memoryMap : List MemoryDescriptor) (index : Nat) : List MemoryDescriptor :=
  memoryMap.take (index + 1) ++ memoryMap.drop index

structure Position where
  memoryMap : List MemoryDescriptor
  index : Nat

def splitBefore (totalEntryCount : Nat) (memoryAttribute entry : MemoryDescriptor)
    (position : Position) : Except Position Position :=
  if entry.physicalStart < memoryAttribute.physicalStart then
    if position.memoryMap.length = totalEntryCount then .error position
    else
      let diffPages := efiSizeToPages (memoryAttribute.physicalStart - entry.physicalStart)
      let copied := copyUp position.memoryMap position.index
      let shortened := copied.modify position.index fun entry => { entry with numberOfPages := diffPages }
      let inserted := shortened.modify (position.index + 1) fun entry =>
        { entry with
          physicalStart := memoryAttribute.physicalStart
          numberOfPages := wrapSub u64 entry.numberOfPages diffPages }
      .ok ⟨inserted, position.index + 1⟩
  else .ok position

/-- The second part: the type changes, and what lies behind the attribute becomes a
descriptor of its own. -/
def splitBehind (totalEntryCount : Nat) (memoryAttribute entry : MemoryDescriptor)
    (position : Position) : Except Position Position :=
  if entry.numberOfPages = memoryAttribute.numberOfPages then
    .ok { position with
      memoryMap := position.memoryMap.modify position.index fun entry =>
        { entry with type := ocRealMemoryType memoryAttribute } }
  else if position.memoryMap.length = totalEntryCount then .error position
  else
    let copied := copyUp position.memoryMap position.index
    let shortened := copied.modify position.index fun entry =>
      { entry with
        type := ocRealMemoryType memoryAttribute
        numberOfPages := memoryAttribute.numberOfPages }
    let inserted := shortened.modify (position.index + 1) fun entry =>
      { entry with
        physicalStart :=
          (entry.physicalStart + efiPagesToSize memoryAttribute.numberOfPages) % u64
        numberOfPages := wrapSub u64 entry.numberOfPages memoryAttribute.numberOfPages }
    .ok ⟨inserted, position.index + 1⟩

def ocSplitMemoryEntryByAttribute (totalEntryCount : Nat) (memoryAttribute : MemoryDescriptor)
    (position : Position) : Except Position Position := do
  let some entry := position.memoryMap[position.index]? | .ok position
  let middle ← splitBefore totalEntryCount memoryAttribute entry position
  let some entry := middle.memoryMap[middle.index]? | .ok middle
  splitBehind totalEntryCount memoryAttribute entry middle

end Split

section Map

/-- The search among the attributes from an index on: the first one that changes the type
of the entry, with its index. It ends early behind the attributes of the entry. -/
def findAttribute (entry : MemoryDescriptor) :
    Bool → Nat → List MemoryDescriptor → Option (Nat × MemoryDescriptor)
  | _, _, [] => none
  | inDescAttrs, index, attr :: rest =>
    if isRuntime attr.type then
      if areaWithinDescriptor entry attr.physicalStart (efiPagesToSize attr.numberOfPages) then
        if ocRealMemoryType attr ≠ entry.type then some (index, attr)
        else findAttribute entry true (index + 1) rest
      else if inDescAttrs then none
      else findAttribute entry false (index + 1) rest
    else findAttribute entry inDescAttrs (index + 1) rest

def splitEntries (totalEntryCount : Nat) (attributes : List MemoryDescriptor) :
    Nat → Nat → Position → Option (EfiStatus × List MemoryDescriptor)
  | 0, _, _ => none
  | fuel + 1, lastAttributeIndex, position =>
    match position.memoryMap[position.index]? with
    | none => some (.success, position.memoryMap)
    | some entry =>
      let found :=
        if isRuntime entry.type then
          findAttribute entry false lastAttributeIndex (attributes.drop lastAttributeIndex)
        else none
      match found with
      | some (index, attr) =>
        match ocSplitMemoryEntryByAttribute totalEntryCount attr position with
        | .ok next => splitEntries totalEntryCount attributes fuel (index + 1) next
        | .error stopped => some (.outOfResources, stopped.memoryMap)
      | none =>
        splitEntries totalEntryCount attributes fuel lastAttributeIndex
          { position with index := position.index + 1 }

def ocSplitMemoryMapByAttributes (fuel : Nat) (attributes : Option (List MemoryDescriptor))
    (maxMemoryMapSize memoryMapSize : Nat) (memoryMap : List MemoryDescriptor)
    (descriptorSize : Nat) : Option (EfiStatus × Nat × List MemoryDescriptor) :=
  match attributes with
  | none => some (.unsupported, memoryMapSize, memoryMap)
  | some attributes =>
    let entries := memoryMap.take (memoryMapSize / descriptorSize)
    (splitEntries (maxMemoryMapSize / descriptorSize) attributes fuel 0 ⟨entries, 0⟩).map
      fun (status, final) => (status, final.length * descriptorSize, final)

end Map

end OpenCore.MemoryAttributes
