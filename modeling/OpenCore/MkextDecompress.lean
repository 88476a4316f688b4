import OpenCore.MkextFormat

/-!
`MkextDecompress`. With no output buffer it only computes the size the
decompressed mkext needs; otherwise it copies or unpacks every file of the mkext
to the buffer. Version 1 has a table of files behind its header, version 2 a
plist that tells where the executables are.
-/

namespace OpenCore.MkextDecompress

open Base ByteBuffer ByteSlices TracedAction XmlParse PlistTree MkextFormat

variable (env : Externals) (buffer : Bytes)

section Unpack

variable (decompress : Bytes → Nat → Bytes × Nat) (headerSize : Nat)

/-- A stored file is unpacked or copied to the output. Its bytes stand behind
`headerSize` bytes at its offset, which the check of the end leaves out. -/
def unpackFile (offset compressedSize fullSize target : Nat) : Editing Unit :=
  if 0 < compressedSize then
    match baseOverflowAdd u32 offset compressedSize with
    | none => Action.exit .invalidParameter
    | some stop =>
      if buffer.length - headerSize < stop then Action.exit .invalidParameter
      else do
        let (data, size) :=
          decompress (slice buffer (offset + headerSize) compressedSize) fullSize
        Action.emit [.unpacks offset fullSize, .write .mkext target fullSize]
        Action.modify fun out => overlay out target data
        if size ≠ fullSize then Action.exit .invalidParameter
        else pure ()
  else
    match baseOverflowAdd u32 offset fullSize with
    | none => Action.exit .invalidParameter
    | some stop =>
      if buffer.length - headerSize < stop then Action.exit .invalidParameter
      else copyMem target (slice buffer (offset + headerSize) fullSize) fullSize

end Unpack

section VersionOne

def putFile (field offset fullSize modifiedSeconds : Nat) : Editing Unit := do
  putWord field offset
  putWord (field + 4) 0
  putWord (field + 8) fullSize
  putWord (field + 12) modifiedSeconds

def decompressV1Kext (outBufferSize index currentOffset : Nat) : Editing Nat :=
  let plist := plistFile buffer index
  let binary := binaryFile buffer index
  let plistAligned := mkextAlign32 plist.fullSize
  let binaryAligned := mkextAlign32 binary.fullSize
  if plistAligned < plist.fullSize ∨ binaryAligned < binary.fullSize then
    Action.exit .invalidParameter
  else
    match baseOverflowTriAdd currentOffset plistAligned binaryAligned with
    | none => Action.exit .invalidParameter
    | some stop =>
      if outBufferSize = 0 then pure stop
      else if outBufferSize < stop then do
        Action.emit [.lacksRoom]
        Action.exit .bufferTooSmall
      else do
        unpackFile buffer env.decompressLzss 0 plist.offset plist.compressedSize
          plist.fullSize currentOffset
        putFile (v1KextOffset index) currentOffset plist.fullSize plist.modifiedSeconds
        let binaryOffset := currentOffset + plistAligned
        if 0 < binary.fullSize then do
          unpackFile buffer env.decompressLzss 0 binary.offset binary.compressedSize
            binary.fullSize binaryOffset
          putFile (v1KextOffset index + v1FileSize) binaryOffset binary.fullSize
            binary.modifiedSeconds
          pure (binaryOffset + binaryAligned)
        else do
          copyMem (v1KextOffset index + v1FileSize) (List.replicate v1FileSize 0) v1FileSize
          pure binaryOffset

def decompressV1Kexts (outBufferSize : Nat) : Nat → Nat → Nat → Editing Nat
  | 0, _, currentOffset => pure currentOffset
  | count + 1, index, currentOffset => do
      let next ← decompressV1Kext env buffer outBufferSize index currentOffset
      decompressV1Kexts outBufferSize count (index + 1) next

def decompressV1 (numKexts numMaxKexts outBufferSize : Nat) : Editing Nat :=
  match baseOverflowMulAdd u32 v1KextSize numKexts coreHeaderSize,
      baseOverflowMulAdd u32 v1KextSize numMaxKexts coreHeaderSize with
  | some headerSize, some reservedSize =>
    if buffer.length < headerSize then Action.exit .invalidParameter
    else if mkextAlign reservedSize < reservedSize then Action.exit .invalidParameter
    else
      let currentOffset := mkextAlign32 reservedSize
      if outBufferSize = 0 then
        decompressV1Kexts env buffer outBufferSize numKexts 0 currentOffset
      else if outBufferSize < currentOffset then do
        Action.emit [.lacksRoom]
        Action.exit .bufferTooSmall
      else do
        copyMem 0 buffer coreHeaderSize
        decompressV1Kexts env buffer outBufferSize numKexts 0 currentOffset
  | _, _ => Action.exit .invalidParameter

end VersionOne

section VersionTwo

/-- The loop body for the executable of a bundle; gives the value node, with its
new content when decompressing, and the new `CurrentOffset`. -/
def decompressExecutable (outBufferSize stringsSize index currentOffset : Nat)
    (executable : Tree) : Editing (Tree × Nat) :=
  match integerValue executable u32 with
  | none => Action.exit .invalidParameter
  | some binOffset =>
    if binOffset = 0 ∨ buffer.length - v2FileEntrySize < binOffset then
      Action.exit .invalidParameter
    else
      let compressedSize := word buffer binOffset
      let fullSize := word buffer (binOffset + 4)
      match baseOverflowTriAdd currentOffset v2FileEntrySize (mkextAlign32 fullSize) with
      | none => Action.exit .invalidParameter
      | some newOffset =>
        if outBufferSize = 0 then pure (executable, newOffset)
        else if outBufferSize < newOffset then do
          Action.emit [.lacksRoom]
          Action.exit .bufferTooSmall
        else do
          putWord currentOffset 0
          putWord (currentOffset + 4) fullSize
          unpackFile buffer env.decompressZlib v2FileEntrySize binOffset compressedSize
            fullSize (currentOffset + v2FileEntrySize)
          let text := Plist.asciiUint64ToLowerHex currentOffset
          Action.emit [.write (.pool stringsSize) (index * kextOffsetStrLen) (text.length + 1)]
          pure (xmlNodeChangeContent executable text, newOffset)

def decompressBundles (outBufferSize stringsSize : Nat) :
    List Tree → Nat → Nat → Editing (List Tree × Nat)
  | [], _, currentOffset => pure ([], currentOffset)
  | bundle :: rest, index, currentOffset =>
    if isDict bundle = false then Action.exit .invalidParameter
    else
      match findEntry mkextExecutableKey (Tree.children bundle) with
      | none => do
          let (others, last) ←
            decompressBundles outBufferSize stringsSize rest (index + 1) currentOffset
          pure (bundle :: others, last)
      | some (before, executable, after) => do
          let (changed, next) ← decompressExecutable env buffer outBufferSize stringsSize
            index currentOffset executable
          let (others, last) ← decompressBundles outBufferSize stringsSize rest (index + 1) next
          pure (Tree.withChildren bundle (before ++ changed :: after) :: others, last)

/-- The size the output needs: the plist, its expansion for each bundle, and the
file entries of the kexts to come. -/
def reservedSize (count numReservedKexts currentOffset : Nat) : Option Nat :=
  (baseOverflowAdd u32 currentOffset (word buffer plistFullSizeField)).bind fun plistEnd =>
    (baseOverflowMulAdd u32 count plistExpansionSize plistEnd).bind fun expanded =>
      baseOverflowMulAdd u32 numReservedKexts v2FileEntrySize expanded

def sizeV2 (numReservedKexts : Nat) (info : MkextInfo) : Editing Nat := do
  let bundles := Tree.children info.bundles
  let (_, currentOffset) ←
    decompressBundles env buffer 0 0 bundles 0 (mkextAlign v2HeaderSize)
  match reservedSize buffer bundles.length numReservedKexts currentOffset with
  | none => Action.exit .invalidParameter
  | some size => pure size

def writeV2 (outBufferSize : Nat) (info : MkextInfo) : Editing Nat :=
  let bundles := Tree.children info.bundles
  match baseOverflowMul u32 bundles.length kextOffsetStrLen with
  | none => Action.exit .invalidParameter
  | some stringsSize =>
    if env.pool stringsSize = false then Action.exit .outOfResources
    else do
      let (changed, currentOffset) ← decompressBundles env buffer outBufferSize stringsSize
        bundles 0 (mkextAlign v2HeaderSize)
      let plistSize ← updateMkextV2Plist outBufferSize (info.withBundles changed) currentOffset
      if plistSize = 0 then Action.exit .invalidParameter
      else
        match baseOverflowAdd u32 currentOffset plistSize with
        | none => Action.exit .invalidParameter
        | some size => pure size

def decompressV2 (numReservedKexts outBufferSize : Nat) : Editing Nat :=
  if buffer.length < v2HeaderSize then Action.exit .invalidParameter
  else if outBufferSize = 0 then do
    match ← parseMkextV2Plist env buffer with
    | none => Action.exit .invalidParameter
    | some info => sizeV2 env buffer numReservedKexts info
  else if outBufferSize < mkextAlign v2HeaderSize then do
    Action.emit [.lacksRoom]
    Action.exit .bufferTooSmall
  else do
    copyMem 0 buffer v2HeaderSize
    match ← parseMkextV2Plist env buffer with
    | none => Action.exit .invalidParameter
    | some info => writeV2 env buffer outBufferSize info

end VersionTwo

def decompressVersion (numReservedKexts numMaxKexts outBufferSize : Nat) : Editing Nat :=
  if word buffer versionField = mkextVersionV1 then
    decompressV1 env buffer (word buffer numKextsField) numMaxKexts outBufferSize
  else if word buffer versionField = mkextVersionV2 then
    decompressV2 env buffer numReservedKexts outBufferSize
  else Action.exit .unsupported

/-- `MkextDecompress` of the mkext at an address, with the output buffer as the
state; gives `OutMkextSize`. -/
def mkextDecompress (address numReservedKexts outBufferSize : Nat) : Editing Nat :=
  if buffer.length < coreHeaderSize ∨ address % 4 ≠ 0 then Action.exit .invalidParameter
  else if word buffer 0 ≠ mkextMagic ∨ word buffer 4 ≠ mkextSignature ∨
      buffer.length ≠ word buffer lengthField then
    Action.exit .invalidParameter
  else
    match baseOverflowAdd u32 (word buffer numKextsField) numReservedKexts with
    | none => Action.exit .invalidParameter
    | some numMaxKexts => do
        let size ← decompressVersion env buffer numReservedKexts numMaxKexts outBufferSize
        if outBufferSize ≠ 0 then do
          updateMkextLengthChecksum size
          pure size
        else pure size

end OpenCore.MkextDecompress
