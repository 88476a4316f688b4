import OpenCore.ByteSlices
import OpenCore.PlistTree
import OpenCore.TracedAction

/-!
The mkext format of `AppleMkext.h` and the functions of `MkextContext.c` that
both the decompressor and the injector use. The memory of an mkext is one byte
buffer, a write to it leaves a mark, and so does what is written to the pool
while an mkext is read. The decompressors are parameters: they give the bytes
they wrote and the size they returned.
-/

namespace OpenCore.MkextFormat

open Base ByteBuffer BigEndian ByteSlices TracedAction XmlParse PlistTree
open Plist (ascii)

def mkextMagic : Nat := 0x4D4B5854
def mkextSignature : Nat := 0x4D4F5358
def mkextVersionV1 : Nat := 0x01008000
def mkextVersionV2 : Nat := 0x02002001

-- Sizes of the structures, and the offsets of the fields the code reads.
def coreHeaderSize : Nat := 32
def v1KextSize : Nat := 32
def v1FileSize : Nat := 16
def v2HeaderSize : Nat := 44
def v2FileEntrySize : Nat := 8

def lengthField : Nat := 8
def adler32Field : Nat := 12
def versionField : Nat := 16
def numKextsField : Nat := 20
def plistOffsetField : Nat := 32
def plistCompressedSizeField : Nat := 36
def plistFullSizeField : Nat := 40

def mkextInfoDictionariesKey : Bytes := ascii "_MKEXTInfoDictionaries"
def mkextExecutableKey : Bytes := ascii "_MKEXTExecutable"
def kextOffsetStrLen : Nat := 24
def plistExpansionSize : Nat := 512

/-- `MKEXT_ALIGN`: `sizeof` makes the sum a 64-bit one, which 32-bit values do not
wrap. -/
def mkextAlign (value : Nat) : Nat := value + (8 - value % 8) % 8

def mkextAlign32 (value : Nat) : Nat := mkextAlign value % u32

def baseOverflowTriAdd (a b c : Nat) : Option Nat :=
  (baseOverflowAdd u32 a b).bind fun sum => baseOverflowAdd u32 sum c

structure KextFile where
  offset : Nat
  compressedSize : Nat
  fullSize : Nat
  modifiedSeconds : Nat
  deriving DecidableEq

def kextFile (mkext : Bytes) (offset : Nat) : KextFile where
  offset := word mkext offset
  compressedSize := word mkext (offset + 4)
  fullSize := word mkext (offset + 8)
  modifiedSeconds := word mkext (offset + 12)

def v1KextOffset (index : Nat) : Nat := coreHeaderSize + v1KextSize * index

def plistFile (mkext : Bytes) (index : Nat) : KextFile := kextFile mkext (v1KextOffset index)

def binaryFile (mkext : Bytes) (index : Nat) : KextFile :=
  kextFile mkext (v1KextOffset index + v1FileSize)

inductive Area where
  | mkext
  | pool (size : Nat)
  deriving DecidableEq

inductive Mark where
  /-- So many bytes at an offset are written, or handed out to be written. -/
  | write (area : Area) (offset size : Nat)
  /-- The compressed file at an offset, of this declared size, is unpacked. -/
  | unpacks (offset fullSize : Nat)
  /-- A size was compared with the room of the mkext buffer and found too large. -/
  | lacksRoom
  deriving DecidableEq

abbrev Editing := Action Bytes EfiStatus Mark

/-- The code of other libraries: what each decompressor writes for a source and a
destination length, and the size it returns; whether the pool has a block. -/
structure Externals where
  decompressLzss : Bytes → Nat → Bytes × Nat
  decompressZlib : Bytes → Nat → Bytes × Nat
  pool : Nat → Bool

def copyMem (offset : Nat) (data : Bytes) (size : Nat) : Editing Unit := do
  Action.emit [.write .mkext offset size]
  Action.modify fun mkext => overlay mkext offset (data.take size)

def putWord (offset value : Nat) : Editing Unit := copyMem offset (toBigEndian 4 value) 4

def adler32 (bytes : Bytes) : Nat :=
  let sums := bytes.foldl (fun (sums : Nat × Nat) byte =>
    let low := (sums.1 + byte.toNat) % 65521
    (low, (sums.2 + low) % 65521)) (1, 0)
  sums.1 + sums.2 * u16

def updateMkextLengthChecksum (length : Nat) : Editing Unit := do
  putWord lengthField length
  let mkext ← Action.get
  putWord adler32Field (adler32 (slice mkext versionField (length - versionField)))

/-- The plist of a version 2 mkext: the parsed document, opened at the value of
`_MKEXTInfoDictionaries`. -/
structure MkextInfo where
  length : Nat
  root : Tree
  before : List Tree
  bundles : Tree
  after : List Tree

def MkextInfo.tree (info : MkextInfo) : Tree :=
  Tree.withChildren info.root (info.before ++ info.bundles :: info.after)

def MkextInfo.withBundles (info : MkextInfo) (bundles : List Tree) : MkextInfo :=
  { info with bundles := Tree.withChildren info.bundles bundles }

def openInfo (plist : Bytes) : Option MkextInfo :=
  (xmlDocumentParse plist false).bind fun document =>
    let root := document.root.tree
    if isDict root then
      (findEntry mkextInfoDictionariesKey (Tree.children root)).map fun found =>
        ⟨document.length, root, found.1, found.2.1, found.2.2⟩
    else none

section ParseMkextV2Plist

variable (env : Externals) (mkext : Bytes)

def parseMkextV2Plist {σ : Type} : Action σ EfiStatus Mark (Option MkextInfo) :=
  let plistOffset := word mkext plistOffsetField
  let compressedSize := word mkext plistCompressedSizeField
  let fullSize := word mkext plistFullSizeField
  let storedSize := if compressedSize = 0 then fullSize else compressedSize
  match baseOverflowAdd u32 plistOffset storedSize with
  | none => pure none
  | some stop =>
    if word mkext lengthField < stop then pure none
    else if env.pool fullSize = false then pure none
    else if 0 < compressedSize then do
      let (plist, size) :=
        env.decompressZlib (slice mkext plistOffset compressedSize) fullSize
      Action.emit [.write (.pool fullSize) 0 fullSize]
      pure (if size ≠ fullSize then none else openInfo plist)
    else do
      Action.emit [.write (.pool fullSize) 0 fullSize]
      pure (openInfo (slice mkext plistOffset fullSize))

end ParseMkextV2Plist

def updateMkextV2Plist (allocatedSize : Nat) (info : MkextInfo) (offset : Nat) : Editing Nat :=
  match exportTree info.length info.tree 0 with
  | none => pure 0
  | some (exported, length) =>
    let exportedSize := (length + 1) % u32
    match baseOverflowAdd u32 offset exportedSize with
    | none => do
        Action.emit [.lacksRoom]
        pure 0
    | some stop =>
      if allocatedSize < stop then do
        Action.emit [.lacksRoom]
        pure 0
      else do
        copyMem offset exported exportedSize
        putWord plistOffsetField offset
        putWord plistFullSizeField exportedSize
        putWord plistCompressedSizeField 0
        pure exportedSize

end OpenCore.MkextFormat
