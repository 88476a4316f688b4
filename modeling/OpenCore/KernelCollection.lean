import OpenCore.Base
import OpenCore.ByteBuffer

/-!
Fixup chains of a kernel collection, after `KernelCollection.c`. The injected
kexts live in one segment of the collection. Each page of the segment has an
entry in `PageStart`, the offset of its first fixup, and every fixup holds the
distance to the next one in its own eight bytes. The table itself lies in the
`__LINKEDIT` expansion, below the segment, and is kept as a record of its own.
-/

namespace OpenCore.KernelCollection

open Base ByteBuffer

def kernelAddressMask : Nat := 0xFFFFFFFF00000000
def kernelAddressKext : Nat := 0xFFFFFF7F00000000
def kernelAddressBase : Nat := 0xFFFFFF8000000000
def kernelFixupOffset : Nat := 0x100000
def startNone : Nat := 0xFFFF
def startMulti : Nat := 0x8000
def dylibInCache : Nat := 0x80000000

structure Rebase where
  target : Nat
  cacheLevel : Nat
  diversity : Nat
  addrDiv : Nat
  key : Nat
  next : Nat
  isAuth : Nat
  deriving DecidableEq

def Rebase.decode (value : Nat) : Rebase where
  target := value % 0x40000000
  cacheLevel := value / 0x40000000 % 4
  diversity := value / 0x100000000 % 0x10000
  addrDiv := value / 0x1000000000000 % 2
  key := value / 0x2000000000000 % 4
  next := value / 0x8000000000000 % 0x1000
  isAuth := value / 0x8000000000000000 % 2

def Rebase.encode (fixup : Rebase) : Nat :=
  fixup.target + fixup.cacheLevel * 0x40000000 + fixup.diversity * 0x100000000 +
    fixup.addrDiv * 0x1000000000000 + fixup.key * 0x2000000000000 +
    fixup.next * 0x8000000000000 + fixup.isAuth * 0x8000000000000000

structure StartsInSegment where
  size : Nat
  pageSize : Nat
  pointerFormat : Nat
  segmentOffset : Nat
  maxValidPointer : Nat
  pageCount : Nat
  pageStart : List Nat
  deriving DecidableEq

structure RelocationInfo where
  address : Int
  isExtern : Bool
  type : Nat
  deriving DecidableEq

/-- The part of `PRELINKED_CONTEXT` that fixup indexing works on, with the
place of the table in `prelinked` for the pointer to it. -/
structure Context where
  prelinked : Bytes
  kextsFileOffset : Nat
  kextsVmAddress : Nat
  kextsFixupChainsOffset : Nat
  kextsFixupChains : StartsInSegment

/-- What indexing reads from a prelinked kext: the place of its Mach-O header,
the address of its first segment, and the local relocations of `DYSYMTAB`. -/
structure KextImage where
  headerOffset : Nat
  firstSegmentAddress : Nat
  relocations : Option (List RelocationInfo)

section Conversion
variable (context : Context) (reloc : RelocationInfo) (relocBase : Nat)

def relocOffsetInSeg : Nat :=
  let relocAddress := (relocBase + (reloc.address % (u32 : Int)).toNat) % u64
  wrapSub u64 relocAddress context.kextsVmAddress % u32

def newFixupPage : Nat := relocOffsetInSeg context reloc relocBase / machoPageSize % u16

def newFixupPageOffset : Nat := relocOffsetInSeg context reloc relocBase % machoPageSize

def relocDest : Nat := context.kextsFileOffset + relocOffsetInSeg context reloc relocBase

/-- The `do` loop that finds the last fixup of the page before the new one.
A pass moves up by at least one byte and stays below the new offset, so a page
worth of passes is never used up. -/
def lastFixupBefore (prelinked : Bytes) (pageData newOffset : Nat) : Nat → Nat → Nat
  | 0, iter => iter
  | fuel + 1, iter =>
    let next := (Rebase.decode (load prelinked 8 (pageData + iter))).next
    let nextIter := (iter + next) % u16
    if nextIter < newOffset ∧ next ≠ 0 then
      lastFixupBefore prelinked pageData newOffset fuel nextIter
    else iter

def newFixup (next : Nat) : Rebase where
  target := wrapSub u64 (load context.prelinked 8 (relocDest context reloc relocBase))
    kernelFixupOffset % 0x40000000
  cacheLevel := 0
  diversity := 0
  addrDiv := 0
  key := 0
  next := next % 0x1000
  isAuth := 0

def Context.withPageStart (context : Context) (page offset : Nat) : Context :=
  let chains := context.kextsFixupChains
  { context with
    kextsFixupChains := { chains with pageStart := chains.pageStart.set page offset } }

def Context.withFixup (context : Context) (destination : Nat) (fixup : Rebase) : Context :=
  { context with prelinked := store context.prelinked 8 destination fixup.encode }

def internalKcConvertRelocToFixup : Context :=
  let destination := relocDest context reloc relocBase
  let page := newFixupPage context reloc relocBase
  let offset := newFixupPageOffset context reloc relocBase
  let first := context.kextsFixupChains.pageStart.getD page startNone
  if first = startNone then
    (context.withPageStart page offset).withFixup destination
      (newFixup context reloc relocBase 0)
  else if offset < first then
    (context.withPageStart page offset).withFixup destination
      (newFixup context reloc relocBase (first - offset))
  else
    let pageData := context.kextsFileOffset + page * machoPageSize
    let iter := lastFixupBefore context.prelinked pageData offset machoPageSize first
    let iterFixup := Rebase.decode (load context.prelinked 8 (pageData + iter))
    let delta := wrapSub u16 offset iter
    let next := if iterFixup.next ≠ 0 then wrapSub u16 iterFixup.next delta else 0
    (context.withFixup (pageData + iter) { iterFixup with next := delta % 0x1000 }).withFixup
      destination (newFixup context reloc relocBase next)

end Conversion

def markDylibInCache (context : Context) (headerOffset : Nat) : Context :=
  let flags := load context.prelinked 4 (headerOffset + 24)
  { context with
    prelinked := store context.prelinked 4 (headerOffset + 24) (flags ||| dylibInCache) }

def convertRelocations (context : Context) (relocBase : Nat)
    (relocations : List RelocationInfo) : Context :=
  relocations.foldl
    (fun current reloc => internalKcConvertRelocToFixup current reloc relocBase) context

def kcKextIndexFixups (context : Context) (image : KextImage) : Context :=
  let marked := markDylibInCache context image.headerOffset
  match image.relocations with
  | none => marked
  | some relocations => convertRelocations marked image.firstSegmentAddress relocations

def kcFixupValue (value : Nat) : Nat :=
  if value &&& kernelAddressMask ≠ kernelAddressBase ∧
      value &&& kernelAddressMask ≠ kernelAddressKext then
    ((Rebase.decode value).target + kernelFixupOffset + kernelAddressBase) % u64
  else value

theorem Rebase.decode_encode (fixup : Rebase) (target : fixup.target < 0x40000000)
    (cacheLevel : fixup.cacheLevel < 4) (diversity : fixup.diversity < 0x10000)
    (addrDiv : fixup.addrDiv < 2) (key : fixup.key < 4) (next : fixup.next < 0x1000)
    (isAuth : fixup.isAuth < 2) :
    Rebase.decode fixup.encode = fixup := by
  cases fixup
  simp only [Rebase.decode, Rebase.encode, Rebase.mk.injEq] at *
  omega

theorem Rebase.encode_lt (fixup : Rebase) (target : fixup.target < 0x40000000)
    (cacheLevel : fixup.cacheLevel < 4) (diversity : fixup.diversity < 0x10000)
    (addrDiv : fixup.addrDiv < 2) (key : fixup.key < 4) (next : fixup.next < 0x1000)
    (isAuth : fixup.isAuth < 2) : fixup.encode < u64 := by
  simp only [Rebase.encode, u64_val]
  omega

theorem Rebase.decode_next_lt (value : Nat) : (Rebase.decode value).next < 0x1000 :=
  Nat.mod_lt _ (by decide)

end OpenCore.KernelCollection
