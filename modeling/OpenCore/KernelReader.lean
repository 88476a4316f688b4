import OpenCore.AddressSpace
import OpenCore.Base
import OpenCore.ByteSlices

/-!
`ReadAppleKernel` on a file whose contents do not change. A buffer is known by the
bytes that were last read or decompressed into it; whether an allocation succeeds
is an input. Besides what the source returns, a kernel tells its slice of the file
and the compressed data it was made from.
-/

namespace OpenCore.KernelReader

open Base ByteBuffer ByteSlices
open AddressSpace (swapBytes32)

def kernelHeaderSize : Nat := 8192
def ocCompressionMaxLength : Nat := 0x40000000
def machCompHeaderSize : Nat := 384
def readPortion : Nat := 0x100000

def machHeaderSignature : Nat := 0xFEEDFACE
def machHeader64Signature : Nat := 0xFEEDFACF
def machFatBinarySignature : Nat := 0xCAFEBABE
def machFatBinaryInvertSignature : Nat := 0xBEBAFECA
def efiFatBinarySignature : Nat := 0x0EF1FAB9
def machCompressedBinaryInvertSignature : Nat := 0x706D6F63
def machCompressedBinaryInvertLzvn : Nat := 0x6E767A6C
def machCompressedBinaryInvertLzss : Nat := 0x73737A6C
def machCpuTypeI386 : Nat := 7
def machCpuTypeX8664 : Nat := 0x01000007

inductive Outcome (α : Type) where
  | done (value : α)
  | failed
  | spins
  deriving DecidableEq

namespace Outcome

variable {α β : Type}

def bind : Outcome α → (α → Outcome β) → Outcome β
  | done value, next => next value
  | failed, _ => failed
  | spins, _ => spins

def ofOption : Option α → Outcome α
  | some value => done value
  | none => failed

def check (condition : Bool) : Outcome Unit := if condition then done () else failed

theorem bind_done (value : α) (next : α → Outcome β) : (done value).bind next = next value := rfl

theorem ofOption_some (value : α) : ofOption (some value) = done value := rfl

theorem check_true : check true = done () := rfl

end Outcome

inductive KernelArch where
  | unknown
  | arch32
  | arch64
  deriving DecidableEq

/-- `DecompressLZVN` and `DecompressLZSS`: from the size of the destination and the
source, the result and what is left in the destination. -/
structure Externals where
  decompressLzvn : Nat → Bytes → Nat × Bytes
  decompressLzss : Nat → Bytes → Nat × Bytes
  sha384 : Bytes → Bytes

structure Allocations where
  kernel : Bool
  replaced : Bool
  compressed : Bool
  remainder : Bool
  deriving DecidableEq

section Files

/-- The loop of `OcGetFileData`, which reads in portions: none when the file ends. -/
def readPortions (file : Bytes) : Nat → Nat → Nat → Option Bytes
  | 0, _, _ => some []
  | left + 1, position, size =>
    if size = 0 then some []
    else
      let requested := min size readPortion
      let read := slice file position requested
      if read.length ≠ requested then none
      else (readPortions file left ((position + requested) % u32) (size - requested)).map (read ++ ·)

def ocGetFileData (file : Bytes) (position size : Nat) : Option Bytes :=
  readPortions file ((size + (readPortion - 1)) / readPortion) position size

def ocGetFileSize (file : Bytes) : Option Nat :=
  if file.length < u32 then some file.length else none

structure Digest where
  fed : Bytes
  position : Nat
  deriving DecidableEq

def Digest.update (digest : Digest) (data : Bytes) : Digest :=
  { fed := digest.fed ++ data, position := (digest.position + data.length) % u32 }

def hashPrefix (file : Bytes) (size : Nat) : Nat → Nat → Digest → Outcome Digest
  | _, 0, digest => .done digest
  | 0, _ + 1, _ => .spins
  | left + 1, remaining + 1, digest =>
    let chunkSize := min (remaining + 1) size
    (Outcome.ofOption (ocGetFileData file digest.position chunkSize)).bind fun data =>
      hashPrefix file size left (remaining + 1 - chunkSize) (digest.update data)

/-- `KernelGetFileData`; there is no digest when `mNeedKernelDigest` is not set. -/
def kernelGetFileData (file : Bytes) (position size : Nat) :
    Option Digest → Outcome (Bytes × Option Digest)
  | none => (Outcome.ofOption (ocGetFileData file position size)).bind fun data => .done (data, none)
  | some digest =>
    let remaining := if digest.position < position then position - digest.position else 0
    (hashPrefix file size remaining remaining digest).bind fun digest =>
      (Outcome.ofOption (ocGetFileData file position size)).bind fun data =>
        if digest.position ≤ position then
          let suffix := (position + size - digest.position) % u32
          .done (data, some (digest.update (slice data (position - digest.position) suffix)))
        else .done (data, some digest)

def replaceBuffer (targetSize allocatedSize reservedSize : Nat) (allocated : Bool) : Option Nat :=
  (baseOverflowAdd u32 targetSize reservedSize).bind fun targetSize =>
    if targetSize ≤ allocatedSize then some allocatedSize
    else if allocated then some targetSize else none

end Files

section Fat

/-- The loop of `FatGetArchitectureOffset` over the architectures from an index on.
The inner result is none for an architecture that is not within the file. -/
def findArchitecture (buffer : Bytes) (swap : Nat → Nat) (fullSize cpuType : Nat) :
    Nat → Nat → Option (Option (Nat × Nat))
  | 0, _ => none
  | left + 1, index =>
    let entry := 8 + 20 * index
    if swap (load buffer 4 entry) = cpuType then
      let offset := swap (load buffer 4 (entry + 8))
      let size := swap (load buffer 4 (entry + 12))
      if offset = 0 then some none
      else
        match baseOverflowAdd u32 offset size with
        | none => some none
        | some top => if fullSize < top then some none else some (some (offset, size))
    else findArchitecture buffer swap fullSize cpuType left (index + 1)

/-- `FatGetArchitectureOffset`: none is `EFI_NOT_FOUND`, and an inner none is
`EFI_INVALID_PARAMETER`. -/
def fatGetArchitectureOffset (buffer : Bytes) (bufferSize fullSize cpuType : Nat) :
    Option (Option (Nat × Nat)) :=
  if bufferSize < 8 then some none
  else
    let signature := load buffer 4 0
    if signature ≠ machFatBinaryInvertSignature ∧ signature ≠ machFatBinarySignature ∧
        signature ≠ efiFatBinarySignature then some (some (0, fullSize))
    else
      let swap := if signature = machFatBinaryInvertSignature then swapBytes32 else id
      let numberOfFatArch := swap (load buffer 4 4)
      match baseOverflowMulAdd u32 numberOfFatArch 20 8 with
      | none => some none
      | some size =>
        if bufferSize < size then some none
        else findArchitecture buffer swap fullSize cpuType numberOfFatArch 0

/-- `ParseFatArchitecture`: whether the slice is a 32-bit one, its offset and size. -/
def parseFatArchitecture (file : Bytes) (prefer32Bit : Bool) (buffer : Bytes) (bufferSize : Nat) :
    Option (Bool × Nat × Nat) :=
  (ocGetFileSize file).bind fun fileSize =>
    if fileSize ≤ bufferSize then none
    else
      let cpuType := fun is32Bit => if is32Bit then machCpuTypeI386 else machCpuTypeX8664
      match fatGetArchitectureOffset buffer bufferSize fileSize (cpuType prefer32Bit) with
      | some found => found.map fun slice => (prefer32Bit, slice)
      | none =>
        match fatGetArchitectureOffset buffer bufferSize fileSize (cpuType !prefer32Bit) with
        | some found => found.map fun slice => (!prefer32Bit, slice)
        | none => none

end Fat

section Image

structure CompHeader where
  compression : Nat
  compressedSize : Nat
  decompressedSize : Nat

def compHeader (buffer : Bytes) : CompHeader where
  compression := load buffer 4 4
  compressedSize := swapBytes32 (load buffer 4 16)
  decompressedSize := swapBytes32 (load buffer 4 12)

def CompHeader.sizesAllowed (header : CompHeader) : Bool :=
  header.compressedSize ≤ ocCompressionMaxLength && header.compressedSize != 0 &&
    header.decompressedSize ≤ ocCompressionMaxLength && kernelHeaderSize ≤ header.decompressedSize

def decompress (env : Externals) (header : CompHeader) (data : Bytes) : Nat × Bytes :=
  if header.compression = machCompressedBinaryInvertLzvn then
    env.decompressLzvn header.decompressedSize data
  else if header.compression = machCompressedBinaryInvertLzss then
    env.decompressLzss header.decompressedSize data
  else (0, [])

structure Image where
  arch : KernelArch
  buffer : Bytes
  kernelSize : Nat
  allocatedSize : Nat
  digest : Option Digest
  /-- The offset and size of the slice that is read. -/
  selected : Nat × Nat
  compressed : Option Bytes
  deriving DecidableEq

variable (env : Externals) (allocations : Allocations) (file : Bytes) (reservedSize : Nat)

/-- `ParseCompressedHeader`, which fails where the source returns a size of zero. -/
def parseCompressedHeader (offset : Nat) (image : Image) : Outcome Image :=
  let header := compHeader image.buffer
  (Outcome.check header.sizesAllowed).bind fun _ =>
  (Outcome.ofOption (replaceBuffer header.decompressedSize image.allocatedSize reservedSize
    allocations.replaced)).bind fun allocatedSize =>
  (Outcome.check allocations.compressed).bind fun _ =>
  (kernelGetFileData file ((offset + machCompHeaderSize) % u32) header.compressedSize
    image.digest).bind fun (data, digest) =>
  let result := decompress env header data
  (Outcome.check (result.1 % u32 == header.decompressedSize)).bind fun _ =>
  .done { image with
    buffer := result.2, kernelSize := header.decompressedSize, allocatedSize, digest,
    compressed := some data }

def matchArch (arch : KernelArch) (magic : Nat) : Option KernelArch :=
  let arch := match arch with
    | .unknown => if magic = machHeaderSignature then .arch32 else .arch64
    | known => known
  if arch = .arch32 ∧ magic ≠ machHeaderSignature ∨ arch ≠ .arch32 ∧ magic ≠ machHeader64Signature
    then none else some arch

def readMacho (offset magic : Nat) (image : Image) : Outcome Image :=
  (Outcome.ofOption (matchArch image.arch magic)).bind fun arch =>
    if image.compressed.isSome then .done { image with arch }
    else
      (Outcome.ofOption (if offset = 0 then ocGetFileSize file else some image.kernelSize)).bind
        fun kernelSize =>
      (Outcome.ofOption (replaceBuffer kernelSize image.allocatedSize reservedSize
        allocations.replaced)).bind fun allocatedSize =>
      (kernelGetFileData file offset kernelSize image.digest).bind fun (buffer, digest) =>
      .done { image with arch, buffer, kernelSize, allocatedSize, digest, selected := (offset, kernelSize) }

/-- The loop of `ReadAppleKernelImage`, with the call for a slice of a FAT file as a
turn too, and as many turns as are allowed. -/
def readLoop (prefer32Bit : Bool) : Nat → Nat → Bool → Image → Outcome Image
  | 0, _, _, _ => .spins
  | turns + 1, offset, forbidFat, image =>
    let magic := load image.buffer 4 0
    if magic = machHeaderSignature ∨ magic = machHeader64Signature then
      readMacho allocations file reservedSize offset magic image
    else if magic = machFatBinarySignature ∨ magic = machFatBinaryInvertSignature then
      if forbidFat then .failed
      else
        (Outcome.ofOption (parseFatArchitecture file prefer32Bit image.buffer
          kernelHeaderSize)).bind fun (is32Bit, fatOffset, fatSize) =>
        (kernelGetFileData file fatOffset kernelHeaderSize image.digest).bind
          fun (buffer, digest) =>
        readLoop prefer32Bit turns fatOffset (decide (0 < fatOffset))
          { image with
            arch := if is32Bit then .arch32 else .arch64,
            buffer, digest, kernelSize := fatSize, selected := (fatOffset, fatSize) }
    else if magic = machCompressedBinaryInvertSignature then
      if image.compressed.isSome then .failed
      else
        (parseCompressedHeader env allocations file reservedSize offset image).bind
          fun image => readLoop prefer32Bit turns offset true image
    else .failed

/-- The turns an image takes at most: for the FAT header, for the compressed one, and for
the Mach-O one. -/
def imageTurns : Nat := 3

/-- `ReadAppleKernelImage` at offset zero. The whole file is the slice until a FAT header
selects another. -/
def readAppleKernelImage (prefer32Bit : Bool) (allocatedSize : Nat) (digest : Option Digest) :
    Outcome Image :=
  (kernelGetFileData file 0 kernelHeaderSize digest).bind fun (buffer, digest) =>
    readLoop env allocations file reservedSize prefer32Bit imageTurns 0 false
      { arch := .unknown, buffer, kernelSize := 0, allocatedSize, digest,
        selected := (0, file.length), compressed := none }

structure Kernel where
  image : Image
  is32Bit : Bool
  kernel : Bytes
  digest : Option Bytes
  deriving DecidableEq

def readRemainder (digest : Digest) : Outcome Digest :=
  (Outcome.ofOption (ocGetFileSize file)).bind fun fullSize =>
    if digest.position < fullSize then
      (Outcome.check allocations.remainder).bind fun _ =>
      (kernelGetFileData file digest.position (fullSize - digest.position) (some digest)).bind
        fun (_, digest) => Outcome.ofOption digest
    else .done digest

def readAppleKernel (prefer32Bit needDigest : Bool) : Outcome Kernel :=
  (Outcome.check allocations.kernel).bind fun _ =>
  let digest := if needDigest then some { fed := [], position := 0 } else none
  (readAppleKernelImage env allocations file reservedSize prefer32Bit kernelHeaderSize
    digest).bind fun image =>
  let is32Bit := decide (image.arch = .arch32)
  let kernel := image.buffer.take image.kernelSize
  match image.digest with
  | none => .done { image, is32Bit, kernel, digest := none }
  | some digest =>
    (readRemainder allocations file digest).bind fun digest =>
      .done { image, is32Bit, kernel, digest := some (env.sha384 digest.fed) }

end Image

end OpenCore.KernelReader
