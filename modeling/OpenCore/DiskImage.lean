import OpenCore.AddressSpace
import OpenCore.PlistTree
import OpenCore.RamDisk

/-!
A disk image in a RAM disk: the trailer at its end, the plist the trailer points to
and the blocks the plist holds, from which the sectors are read, and the chunks of a
chunklist, which are compared with the image from its front on. Memory is taken to be
available; what lies behind the decoded data of a block is an input.
-/

namespace OpenCore.DiskImage

open Base ByteBuffer ByteSlices RamDisk XmlParse
open AddressSpace (swapBytes32)
open Plist (ascii)

def appleDiskImageMagic : Nat := 0x6B6F6C79
def appleDiskImageSectorSize : Nat := 512
def trailerSize : Nat := 512
def blockDataSize : Nat := 204
def chunkSize : Nat := 40
def checksumDataBits : Nat := 1024

def chunkTypeZero : Nat := 0
def chunkTypeRaw : Nat := 1
def chunkTypeIgnore : Nat := 2
def chunkTypeZlib : Nat := 0x80000005

def swapBytes64 (value : Nat) : Nat :=
  swapBytes32 (value % u32) * u32 + swapBytes32 (value / u32)

/-- `Base64Decode`, and `DecompressZLIB`, which gives the size and the data for the size
of the destination and the source. -/
structure Externals where
  sha256 : Bytes → Bytes
  base64Decode : Bytes → Option Bytes
  decompressZlib : Nat → Bytes → Nat × Bytes

section Blocks

structure Chunk where
  type : Nat
  sectorNumber : Nat
  sectorCount : Nat
  compressedOffset : Nat
  compressedLength : Nat
  deriving DecidableEq

structure BlockData where
  sectorNumber : Nat
  sectorCount : Nat
  chunks : List Chunk
  deriving DecidableEq

def findPlistDictChild (name : Bytes) : List Tree → Option Tree
  | key :: value :: rest =>
    match PlistTree.keyValue key with
    | none => none
    | some text => if text = name then some value else findPlistDictChild name rest
  | _ => none

def plistDocumentRoot (root : Tree) : Option Tree :=
  if Tree.name root = ascii "plist" then
    match Tree.children root with
    | [node] => some node
    | _ => none
  else none

def swapChunk (block : Bytes) (blockSectorTop maxOffset index : Nat) : Option Chunk :=
  let entry := blockDataSize + chunkSize * index
  let chunk : Chunk := {
    type := swapBytes32 (load block 4 entry)
    sectorNumber := swapBytes64 (load block 8 (entry + 8))
    sectorCount := swapBytes64 (load block 8 (entry + 16))
    compressedOffset := swapBytes64 (load block 8 (entry + 24))
    compressedLength := swapBytes64 (load block 8 (entry + 32)) }
  (baseOverflowAdd u64 chunk.sectorNumber chunk.sectorCount).bind fun sectorTop =>
    if blockSectorTop < sectorTop then none
    else
      (baseOverflowAdd u64 chunk.compressedOffset chunk.compressedLength).bind fun offsetTop =>
        if maxOffset < offsetTop then none else some chunk

/-- `InternalSwapBlockData` on the memory at a block, of which `maxSize` bytes were decoded. -/
def internalSwapBlockData (block : Bytes) (maxSize sectorCount dataForkOffset dataForkSize : Nat) :
    Option BlockData :=
  let chunkCount := swapBytes32 (load block 4 200)
  (baseOverflowMul u32 chunkCount chunkSize).bind fun chunksSize =>
    if wrapSub u64 maxSize blockDataSize < chunksSize then none
    else
      let maxOffset := dataForkOffset + dataForkSize
      let blockSectorNumber := swapBytes64 (load block 8 8)
      let blockSectorCount := swapBytes64 (load block 8 16)
      let dataOffset := swapBytes64 (load block 8 24)
      let checksumSize := swapBytes32 (load block 4 68)
      if dataForkOffset < dataOffset ∨ checksumDataBits < checksumSize ∨ maxOffset < dataOffset then
        none
      else
        (baseOverflowAdd u64 blockSectorNumber blockSectorCount).bind fun blockSectorTop =>
          if sectorCount < blockSectorTop then none
          else
            ((List.range chunkCount).mapM (swapChunk block blockSectorTop maxOffset)).map fun chunks =>
              { sectorNumber := blockSectorNumber, sectorCount := blockSectorCount, chunks }

end Blocks

section Plists

variable (env : Externals) (behind : Nat → Bytes)

def plistDataValue (value : Tree) : Option Bytes :=
  if (Plist.plistNodeCast value.plistNode .data).isSome then
    match Tree.content value with
    | none => none
    | some content =>
      if content.length < blockDataSize then none
      else
        (env.base64Decode content).bind fun data =>
          if data.length < u32 then some data else none
  else none

def parseBlock (sectorCount dataForkOffset dataForkSize index : Nat) (dict : Tree) :
    Option BlockData :=
  (findPlistDictChild (ascii "Data") (Tree.children dict)).bind fun value =>
    (plistDataValue env value).bind fun data =>
      internalSwapBlockData (data ++ behind index) data.length sectorCount dataForkOffset dataForkSize

def parseBlocks (sectorCount dataForkOffset dataForkSize : Nat) :
    Nat → List Tree → Option (List BlockData)
  | _, [] => some []
  | index, dict :: rest =>
    (parseBlock env behind sectorCount dataForkOffset dataForkSize index dict).bind fun block =>
      (parseBlocks sectorCount dataForkOffset dataForkSize (index + 1) rest).map (block :: ·)

def blockDicts (plist : Bytes) : Option (List Tree) :=
  (xmlDocumentParse plist false).bind fun document =>
    (plistDocumentRoot document.root.tree).bind fun root =>
      (findPlistDictChild (ascii "resource-fork") (Tree.children root)).bind fun fork =>
        (findPlistDictChild (ascii "blkx") (Tree.children fork)).map Tree.children

def internalParsePlist (plist : Bytes) (sectorCount dataForkOffset dataForkSize : Nat) :
    Option (List BlockData) :=
  (blockDicts plist).bind fun dicts =>
    if dicts.length = 0 then none
    else
      (baseOverflowMul u32 dicts.length 8).bind fun _ =>
        parseBlocks env behind sectorCount dataForkOffset dataForkSize 0 dicts

end Plists

section Contexts

structure Context where
  extentTable : ExtentTable
  blocks : List BlockData
  sectorCount : Nat
  deriving DecidableEq

structure Trailer where
  dataForkOffset : Nat
  dataForkLength : Nat
  xmlOffset : Nat
  xmlLength : Nat
  sectorCount : Nat
  deriving DecidableEq

/-- The trailer, with the checks that `OcAppleDiskImageInitializeContext` makes of it. -/
def readTrailer (table : ExtentTable) (fileSize : Nat) : Option Trailer :=
  if fileSize ≤ trailerSize then none
  else
    let trailerOffset := fileSize - trailerSize
    (ocAppleRamDiskRead table trailerOffset trailerSize).bind fun bytes =>
      let headerSize := swapBytes32 (load bytes 4 8)
      let segmentCount := swapBytes32 (load bytes 4 60)
      let checksumSize := swapBytes32 (load bytes 4 84)
      let trailer : Trailer := {
        dataForkOffset := swapBytes64 (load bytes 8 24)
        dataForkLength := swapBytes64 (load bytes 8 32)
        xmlOffset := swapBytes64 (load bytes 8 216)
        xmlLength := swapBytes64 (load bytes 8 224)
        sectorCount := swapBytes64 (load bytes 8 492) }
      if load bytes 4 0 ≠ swapBytes32 appleDiskImageMagic then none
      else if headerSize ≠ trailerSize ∨ trailer.xmlLength = 0 ∨ u32 ≤ trailer.xmlLength ∨
          checksumDataBits < checksumSize ∨ trailer.sectorCount = 0 then none
      else if segmentCount ≠ 0 ∧ segmentCount ≠ 1 then none
      else
        (baseOverflowMul u64 trailer.sectorCount appleDiskImageSectorSize).bind fun _ =>
          (baseOverflowAdd u64 trailer.xmlOffset trailer.xmlLength).bind fun xmlTop =>
            if trailerOffset < xmlTop then none
            else
              (baseOverflowAdd u64 trailer.dataForkOffset trailer.dataForkLength).bind fun forkTop =>
                if trailerOffset < forkTop then none else some trailer

variable (env : Externals) (behind : Nat → Bytes)

def ocAppleDiskImageInitializeContext (table : ExtentTable) (fileSize : Nat) : Option Context :=
  (readTrailer table fileSize).bind fun trailer =>
    (ocAppleRamDiskRead table trailer.xmlOffset trailer.xmlLength).bind fun plist =>
      (internalParsePlist env behind plist trailer.sectorCount trailer.dataForkOffset
        trailer.dataForkLength).map fun blocks =>
          { extentTable := table, blocks, sectorCount := trailer.sectorCount }

def ocGetFileSize (file : Bytes) : Option Nat :=
  if file.length < u32 then some file.length else none

def ocAppleDiskImageInitializeFromFile (allocatePool : Nat → Bool) (map : MemoryMap)
    (file : File) : Option Context :=
  (ocGetFileSize file.contents).bind fun fileSize =>
    (ocAppleRamDiskAllocate map fileSize).bind fun extents =>
      (ocAppleRamDiskLoadFile allocatePool file extents fileSize).bind fun table =>
        ocAppleDiskImageInitializeContext env behind table fileSize

end Contexts

section Verification

structure ListedChunk where
  length : Nat
  checksum : Bytes
  deriving DecidableEq

def verifyChunks (sha256 : Bytes → Bytes) (table : ExtentTable) : List ListedChunk → Nat → Bool
  | [], _ => true
  | chunk :: rest, currentOffset =>
    match ocAppleRamDiskRead table currentOffset chunk.length with
    | none => false
    | some data =>
      if sha256 data ≠ chunk.checksum then false
      else verifyChunks sha256 table rest ((currentOffset + chunk.length) % u64)

def ocAppleDiskImageVerifyData (env : Externals) (context : Context)
    (chunklist : List ListedChunk) : Bool :=
  verifyChunks env.sha256 context.extentTable chunklist 0

end Verification

section Sectors

def sectorStart (block : BlockData) (chunk : Chunk) : Nat :=
  (block.sectorNumber + chunk.sectorNumber) % u64

def chunkHolds (lba : Nat) (block : BlockData) (chunk : Chunk) : Bool :=
  sectorStart block chunk ≤ lba && lba < (sectorStart block chunk + chunk.sectorCount) % u64

def blockHolds (lba : Nat) (block : BlockData) : Bool :=
  block.sectorNumber ≤ lba && lba < (block.sectorNumber + block.sectorCount) % u64

def internalGetBlockChunk (lba : Nat) : List BlockData → Option (BlockData × Chunk)
  | [] => none
  | block :: rest =>
    if blockHolds lba block then
      match block.chunks.find? (chunkHolds lba block) with
      | some chunk => some (block, chunk)
      | none => internalGetBlockChunk lba rest
    else internalGetBlockChunk lba rest

variable (env : Externals) (context : Context)

def readChunk (chunk : Chunk) (totalLength chunkOffset size : Nat) : Option Bytes :=
  if chunk.type = chunkTypeZero ∨ chunk.type = chunkTypeIgnore then some (List.replicate size 0)
  else if chunk.type = chunkTypeRaw then
    ocAppleRamDiskRead context.extentTable ((chunk.compressedOffset + chunkOffset) % u64) size
  else if chunk.type = chunkTypeZlib then
    (ocAppleRamDiskRead context.extentTable chunk.compressedOffset chunk.compressedLength).bind
      fun compressed =>
        let decompressed := env.decompressZlib totalLength compressed
        if decompressed.1 ≠ totalLength then none
        else some (slice decompressed.2 chunkOffset size)
  else none

inductive ReadResult where
  | read (data : Bytes)
  | failed
  | spins
  deriving DecidableEq

def ReadResult.prepend (front : Bytes) : ReadResult → ReadResult
  | read data => read (front ++ data)
  | failed => failed
  | spins => spins

def readSectors : Nat → Nat → Nat → ReadResult
  | _, _, 0 => .read []
  | 0, _, _ + 1 => .spins
  | turns + 1, lba, remaining + 1 =>
    match internalGetBlockChunk lba context.blocks with
    | none => .failed
    | some (block, chunk) =>
      let lbaOffset := lba - sectorStart block chunk
      let lbaLength := chunk.sectorCount - lbaOffset
      match baseOverflowMul u64 lbaOffset appleDiskImageSectorSize,
          baseOverflowMul u64 chunk.sectorCount appleDiskImageSectorSize with
      | some chunkOffset, some totalLength =>
        let size := min (remaining + 1) (totalLength - chunkOffset)
        match readChunk env context chunk totalLength chunkOffset size with
        | none => .failed
        | some data =>
          (readSectors turns ((lba + lbaLength) % u64) (remaining + 1 - size)).prepend data
      | _, _ => .failed

/-- `OcAppleDiskImageRead`; every turn reads something, so that a turn a byte is enough. -/
def ocAppleDiskImageRead (lba bufferSize : Nat) : ReadResult :=
  readSectors env context bufferSize lba bufferSize

end Sectors

end OpenCore.DiskImage
