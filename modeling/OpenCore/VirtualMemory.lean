import OpenCore.Base
import OpenCore.TableTree

/-!
The page tables of `OcMemoryLib`: the walk of `OcGetSetPageTableInfoForAddress` and the
mapping of pages by `VmMapVirtualPage`. Physical memory is read as pages of 512 entries by
their addresses.
-/

namespace OpenCore.VirtualMemory

open Base TableTree

abbrev Memory := TableTree.Memory Nat

section Entries

def paging4KAddressMask64 : Nat := 0x000FFFFFFFFFF000
def paging2MAddressMask64 : Nat := 0x000FFFFFFFE00000
def paging1GAddressMask64 : Nat := 0x000FFFFFC0000000

def base4KB : Nat := 0x1000
def base2MB : Nat := 0x200000
def base1GB : Nat := 0x40000000

def present (entry : Nat) : Bool := entry % 2 == 1

def largePage (entry : Nat) : Bool := entry / 128 % 2 == 1

def withReadWrite (entry : Nat) : Nat := entry ||| 2
def withPresent (entry : Nat) : Nat := entry ||| 1
def withLargePage (entry : Nat) : Nat := entry ||| 128

def pml4Offset (va : Nat) : Nat := va / 0x8000000000 % 512
def pdpOffset (va : Nat) : Nat := va / 0x40000000 % 512
def pdOffset (va : Nat) : Nat := va / 0x200000 % 512
def ptOffset (va : Nat) : Nat := va / 0x1000 % 512

def patIndex (entry pat : Nat) : Nat := entry / 8 % 2 + entry / 16 % 2 * 2 + entry / pat % 2 * 4

end Entries

section Info

structure PageTableInfo where
  physicalAddr : Nat
  level : Nat
  bits : Nat
  patIndex : Nat

def ocGetPageTableInfoForAddress (memory : Memory) (pageTable virtualAddr : Nat) :
    Option PageTableInfo :=
  let pml4 := memory pageTable (pml4Offset virtualAddr)
  if !present pml4 then none
  else
    let pdpe := memory (pml4 &&& paging4KAddressMask64) (pdpOffset virtualAddr)
    if !present pdpe then none
    else if largePage pdpe then
      some ⟨(pdpe &&& paging1GAddressMask64) + virtualAddr % 0x40000000, 1, pdpe, patIndex pdpe 0x1000⟩
    else
      let pde := memory (pdpe &&& paging4KAddressMask64) (pdOffset virtualAddr)
      if !present pde then none
      else if largePage pde then
        some ⟨(pde &&& paging2MAddressMask64) + virtualAddr % 0x200000, 2, pde, patIndex pde 0x1000⟩
      else
        let pte := memory (pde &&& paging4KAddressMask64) (ptOffset virtualAddr)
        if !present pte then none
        else
          some ⟨(pte &&& paging4KAddressMask64) + virtualAddr % 0x1000, 4, pte, patIndex pte 0x80⟩

def ocGetPhysicalAddress (memory : Memory) (pageTable virtualAddr : Nat) : Option Nat :=
  (ocGetPageTableInfoForAddress memory pageTable virtualAddr).map (·.physicalAddr)

end Info

section Mapping

structure VmemContext where
  memoryPool : Nat
  freePages : Nat

def vmAllocatePages (context : VmemContext) (numPages : Nat) : Nat × VmemContext :=
  if numPages ≤ context.freePages then
    (context.memoryPool,
      ⟨context.memoryPool + numPages * base4KB, context.freePages - numPages⟩)
  else (0, context)

structure Mapping where
  memory : Memory
  context : VmemContext

def fillPage (memory : Memory) (page : Nat) (entries : Nat → Nat) : Memory := fun place slot =>
  if place = page then entries slot else memory place slot

def tableEntry (page : Nat) : Nat := withPresent (withReadWrite (page &&& paging4KAddressMask64))

def entries1G (slot : Nat) : Nat :=
  withLargePage (withPresent (withReadWrite (slot * base1GB &&& paging1GAddressMask64)))

def entries2M (pdpe slot : Nat) : Nat :=
  withLargePage (withPresent (withReadWrite
    ((pdpe &&& paging1GAddressMask64) + slot * base2MB &&& paging2MAddressMask64)))

def entries4K (pde slot : Nat) : Nat :=
  withPresent (withReadWrite
    ((pde &&& paging2MAddressMask64) + slot * base4KB &&& paging4KAddressMask64))

/-- A new table for an entry, with what the old entry gives it. The error is
`EFI_NO_MAPPING`. -/
def newTable (table slot : Nat) (entries : Nat → Nat → Nat) (state : Mapping) :
    Except Mapping Mapping :=
  let (page, context) := vmAllocatePages state.context 1
  if page = 0 then .error { state with context }
  else
    let zeroed := fillPage state.memory page fun _ => 0
    let filled := fillPage zeroed page (entries (zeroed table slot))
    .ok { memory := filled.set table slot (tableEntry page), context }

def clearAliased (pageTable slot : Nat) (memory : Memory) : Memory :=
  if slot ≠ 0 ∧ present (memory pageTable slot) ∧
      memory pageTable 0 &&& paging4KAddressMask64 =
        memory pageTable slot &&& paging4KAddressMask64 then
    memory.set pageTable slot 0
  else memory

def ensurePdp (pageTable slot : Nat) (state : Mapping) : Except Mapping Mapping :=
  if !present (state.memory pageTable slot) then newTable pageTable slot (fun _ => entries1G) state
  else .ok state

def ensurePd (table slot : Nat) (state : Mapping) : Except Mapping Mapping :=
  if !present (state.memory table slot) || largePage (state.memory table slot) then
    newTable table slot (fun pdpe => if largePage pdpe then entries2M pdpe else fun _ => 0) state
  else .ok state

def ensurePt (table slot : Nat) (state : Mapping) : Except Mapping Mapping :=
  if !present (state.memory table slot) || largePage (state.memory table slot) then
    newTable table slot (fun pde => if largePage pde then entries4K pde else fun _ => 0) state
  else .ok state

def vmMapVirtualPage (pageTable virtualAddr physicalAddr : Nat) (state : Mapping) :
    Except Mapping Mapping := do
  let cleared := { state with memory := clearAliased pageTable (pml4Offset virtualAddr) state.memory }
  let state ← ensurePdp pageTable (pml4Offset virtualAddr) cleared
  let pdpe := state.memory pageTable (pml4Offset virtualAddr) &&& paging4KAddressMask64
  let state ← ensurePd pdpe (pdpOffset virtualAddr) state
  let pde := state.memory pdpe (pdpOffset virtualAddr) &&& paging4KAddressMask64
  let state ← ensurePt pde (pdOffset virtualAddr) state
  let pte := state.memory pde (pdOffset virtualAddr) &&& paging4KAddressMask64
  .ok { state with
    memory := state.memory.set pte (ptOffset virtualAddr)
      (withPresent (withReadWrite (physicalAddr &&& paging4KAddressMask64))) }

def vmMapVirtualPages (pageTable : Nat) : Nat → Nat → Nat → Mapping → Except Mapping Mapping
  | 0, _, _, state => .ok state
  | numPages + 1, virtualAddr, physicalAddr, state =>
    match vmMapVirtualPage pageTable virtualAddr physicalAddr state with
    | .error stopped => .error stopped
    | .ok next =>
      vmMapVirtualPages pageTable numPages ((virtualAddr + base4KB) % u64)
        ((physicalAddr + base4KB) % u64) next

end Mapping

end OpenCore.VirtualMemory
