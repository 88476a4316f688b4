import OpenCore.MkextFormat

/-!
`MKEXT_CONTEXT` and the functions of `MkextContext.c` that work on it. The memory
of the mkext is `MkextAllocSize` bytes; for version 2 the parsed plist is kept
beside it, and the bundles of injected kexts are appended there as nodes whose
content is text. What a call finds in freed or uninitialised storage, and
whether its allocations succeed, are inputs of the call.
-/

namespace OpenCore.MkextState

open Base ByteBuffer ByteSlices XmlParse PlistTree MkextFormat
open Plist (ascii)

def cpuTypeField : Nat := 24
def machCpuTypeI386 : Nat := 7
def machCpuTypeX8664 : Nat := 0x01000007

def infoBundleIdentifierKey : Bytes := ascii "CFBundleIdentifier"
def mkextBundlePathKey : Bytes := ascii "_MKEXTBundlePath"
def mkextInfoIntegerAttributes : Bytes := ascii "size=\"32\""

structure MkextKext where
  identifier : Bytes
  binaryOffset : Nat
  binarySize : Nat
  deriving DecidableEq

structure MkextContext where
  mkext : Bytes
  mkextSize : Nat
  mkextVersion : Nat
  is32Bit : Bool
  numKexts : Nat
  numMaxKexts : Nat
  mkextInfoOffset : Nat
  /-- The parsed plist with `MkextKexts`, of version 2 only. -/
  info : Option MkextInfo
  cachedKexts : List MkextKext

/-- The code of other libraries: besides the decompressors, the part of a fat
executable for the architecture, when there is one. -/
structure KextExternals extends Externals where
  parseKextBinary : Bytes → Bool → Option Bytes

section Identifiers

/-- The loops over an `Info.plist` for `CFBundleIdentifier`: the first one counts. -/
def dictIdentifier (children : List Tree) : Option Bytes :=
  (findEntry infoBundleIdentifierKey children).bind fun found => Tree.content found.2.1

def infoDict (plist : Bytes) : Option Tree :=
  (xmlDocumentParse plist false).bind fun document => documentDict document.root.tree

/-- The loop over the keys of a bundle: the last identifier and the last offset of
an executable. No result is the early return on a value that does not read. -/
def bundleFields (accepts : Tree → Bool) :
    List (Tree × Tree) → Option Bytes × Nat → Option (Option Bytes × Nat)
  | [], fields => some fields
  | (key, value) :: rest, fields =>
    match keyValue key with
    | none => bundleFields accepts rest fields
    | some name =>
      if name = infoBundleIdentifierKey then
        if accepts value then bundleFields accepts rest (Tree.content value, fields.2) else none
      else if name = mkextExecutableKey then
        match integerValue value u32 with
        | none => none
        | some offset => bundleFields accepts rest (fields.1, offset)
      else bundleFields accepts rest fields

end Identifiers

section Cache

def insertCachedMkextKext (context : MkextContext) (identifier : Bytes)
    (binOffset binSize : Nat) : MkextContext :=
  { context with cachedKexts := context.cachedKexts ++ [⟨identifier, binOffset, binSize⟩] }

/-- The walk of `InternalDropCachedMkextKext` and the removal behind it: without a
match the walk ends on the last entry. -/
def dropCachedKext (identifier : Bytes) : List MkextKext → List MkextKext
  | [] => []
  | [_] => []
  | kext :: next :: rest =>
    if kext.identifier = identifier then next :: rest
    else kext :: dropCachedKext identifier (next :: rest)

def internalDropCachedMkextKext (context : MkextContext) (identifier : Bytes) : MkextContext :=
  { context with cachedKexts := dropCachedKext identifier context.cachedKexts }

end Cache

section Lookup

variable (env : KextExternals) (context : MkextContext) (identifier : Bytes)

structure KextOffsets where
  plistOffset : Nat
  plistSize : Nat
  binOffset : Nat
  binSize : Nat
  deriving DecidableEq

def beyondMkext (offset size : Nat) : Bool :=
  match baseOverflowAdd u32 offset size with
  | none => true
  | some stop => context.mkextSize < stop

/-- The loop of `InternalGetMkextV1KextOffsets` over `count` kexts from an index on;
the offsets are those of the kext examined last. -/
def searchV1Kexts : Nat → Nat → Bool → KextOffsets → Except EfiStatus (Nat × KextOffsets)
  | 0, index, isKextMatch, offsets =>
    if isKextMatch then .ok (index, offsets) else .error .notFound
  | count + 1, index, isKextMatch, offsets =>
    let plist := plistFile context.mkext index
    let binary := binaryFile context.mkext index
    if plist.compressedSize ≠ 0 ∨ binary.compressedSize ≠ 0 ∨ binary.offset = 0 then
      searchV1Kexts count (index + 1) isKextMatch offsets
    else if beyondMkext context plist.offset plist.fullSize = true ∨
        beyondMkext context binary.offset binary.fullSize = true then
      .error .invalidParameter
    else if env.pool plist.fullSize = false then .error .outOfResources
    else
      match infoDict (slice context.mkext plist.offset plist.fullSize) with
      | none => .error .outOfResources
      | some dict =>
        let examined := ⟨plist.offset, plist.fullSize, binary.offset, binary.fullSize⟩
        if dictIdentifier (Tree.children dict) = some identifier then
          if 0 < binary.offset ∧ 0 < binary.fullSize then .ok (index, examined)
          else searchV1Kexts count (index + 1) true examined
        else searchV1Kexts count (index + 1) false examined

def internalGetMkextV1KextOffsets : Except EfiStatus (Nat × KextOffsets) :=
  searchV1Kexts env context identifier context.numKexts 0 false ⟨0, 0, 0, 0⟩

/-- The loop of `InternalCachedMkextKext` over the bundles; gives the offset of the
file entry. -/
def searchBundles : List Tree → Option Nat
  | [] => none
  | bundle :: rest =>
    if isDict bundle = false then none
    else
      match bundleFields (fun _ => true) (dictEntries (Tree.children bundle)) (none, 0) with
      | none => none
      | some (found, offset) =>
        if found = some identifier ∧ 0 < offset ∧ offset < context.mkextSize - v2FileEntrySize then
          some offset
        else searchBundles rest

def searchMkext : Option (Nat × Nat) :=
  if context.mkextVersion = mkextVersionV1 then
    match internalGetMkextV1KextOffsets env context identifier with
    | .error _ => none
    | .ok (_, offsets) => some (offsets.binOffset, offsets.binSize)
  else if context.mkextVersion = mkextVersionV2 then
    (context.info.bind fun info => searchBundles context identifier (Tree.children info.bundles)).bind
      fun offset =>
        if word context.mkext offset ≠ 0 then none
        else
          let binOffset := offset + v2FileEntrySize
          let binSize := word context.mkext (offset + 4)
          if beyondMkext context binOffset binSize then none else some (binOffset, binSize)
  else none

/-- `InternalCachedMkextKext`; `inserts` says that the entry can be allocated. -/
def internalCachedMkextKext (inserts : Bool) : Option MkextKext × MkextContext :=
  match context.cachedKexts.find? fun kext => kext.identifier = identifier with
  | some kext => (some kext, context)
  | none =>
    match searchMkext env context identifier with
    | none => (none, context)
    | some (binOffset, binSize) =>
      if inserts then
        (some ⟨identifier, binOffset, binSize⟩,
          insertCachedMkextKext context identifier binOffset binSize)
      else (none, context)

end Lookup

end OpenCore.MkextState
