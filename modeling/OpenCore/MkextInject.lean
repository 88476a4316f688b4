import OpenCore.MkextState

/-!
The life of an mkext context: `MkextContextInit`, then kexts are injected and
excluded, and `MkextInjectPatchComplete` writes what the header says of the
result. Version 1 keeps a table of slots in front of the files, which grow behind
the old end; version 2 lays executables over the old plist and prints the plist
again at the end.
-/

namespace OpenCore.MkextInject

open Base ByteBuffer BigEndian ByteSlices XmlText XmlParse PlistTree MkextFormat MkextState
open Plist (ascii)

variable (env : KextExternals)

section Init

def startingOffset (mkext : Bytes) : Nat → Nat → Nat → Nat
  | 0, _, lowest => lowest
  | count + 1, index, lowest =>
    let plist := plistFile mkext index
    let binary := binaryFile mkext index
    let lowest := if lowest = 0 ∨ plist.offset < lowest then plist.offset else lowest
    let lowest := if 0 < binary.fullSize ∧ binary.offset < lowest then binary.offset else lowest
    startingOffset mkext count (index + 1) lowest

def countSlots (mkext : Bytes) (mkextSize numKexts : Nat) : Option Nat :=
  (baseOverflowMulAdd u32 v1KextSize numKexts coreHeaderSize).bind fun headerSize =>
    let start := startingOffset mkext numKexts 0 0
    if mkextSize < headerSize ∨ start < headerSize ∨ mkextSize < start then none
    else
      (baseOverflowAdd u32 ((start - headerSize) / v1KextSize) numKexts).bind fun numMaxKexts =>
        if numMaxKexts = u32 - 1 then none else some numMaxKexts

def mkextContextInit (address : Nat) (mkext : Bytes) (mkextSize : Nat) :
    Except EfiStatus MkextContext :=
  if mkextSize < coreHeaderSize ∨ address % 4 ≠ 0 then .error .invalidParameter
  else if word mkext 0 ≠ mkextMagic ∨ word mkext 4 ≠ mkextSignature ∨
      mkextSize ≠ word mkext lengthField then
    .error .invalidParameter
  else
    let cpuType := word mkext cpuTypeField
    let version := word mkext versionField
    let numKexts := word mkext numKextsField
    if cpuType ≠ machCpuTypeI386 ∧ cpuType ≠ machCpuTypeX8664 then .error .unsupported
    else
      let is32Bit : Bool := cpuType = machCpuTypeI386
      if version = mkextVersionV1 then
        match countSlots mkext mkextSize numKexts with
        | none => .error .invalidParameter
        | some numMaxKexts =>
          .ok ⟨mkext, mkextSize, version, is32Bit, numKexts, numMaxKexts, 0, none, []⟩
      else if version = mkextVersionV2 then
        if mkextSize < v2HeaderSize then .error .invalidParameter
        else
          match (parseMkextV2Plist env.toExternals mkext).result () with
          | .ok (some info) =>
            let plistOffset := word mkext plistOffsetField
            if baseOverflowAdd u32 plistOffset (word mkext plistFullSizeField) ≠ some mkextSize then
              .error .invalidParameter
            else .ok ⟨mkext, mkextSize, version, is32Bit, numKexts, 0, plistOffset, some info, []⟩
          | _ => .error .invalidParameter
      else .error .unsupported

end Init

section Inject

/-- The arguments of `MkextInjectKext`, and what the call meets in the pool: the
contents of the storage of the identifier once it is freed, and whether the nodes
can be appended and the cache entry made. -/
structure Injection where
  identifier : Option Bytes
  bundlePath : Bytes
  infoPlist : Bytes
  executable : Option Bytes
  freed : Bytes
  appends : Bool
  lists : Bool
  inserts : Bool

def slotFile (offset fullSize : Nat) : Bytes :=
  toBigEndian 4 offset ++ (toBigEndian 4 0 ++ (toBigEndian 4 fullSize ++ toBigEndian 4 0))

def placeBinary (mkext : Bytes) (slot : Nat) : Option (Nat × Bytes) → Bytes
  | none => mkext
  | some (binOffset, binary) =>
    overlay (overlay mkext binOffset binary) (slot + v1FileSize) (slotFile binOffset binary.length)

/-- The plist, the executable behind it and the slot of a kext of version 1, once
the sizes have been checked. -/
def placeV1 (ctx : MkextContext) (infoPlist : Bytes) (executable : Option (Nat × Bytes))
    (newSize : Nat) : MkextContext :=
  let slot := v1KextOffset ctx.numKexts
  let placed := placeBinary ctx.mkext slot executable
  { ctx with
    mkext := overlay (overlay placed ctx.mkextSize infoPlist) slot
      (slotFile ctx.mkextSize infoPlist.length),
    mkextSize := newSize,
    numKexts := ctx.numKexts + 1 }

/-- The part of `MkextInjectKext` for version 1; gives the offset and size for the
cache. -/
def injectV1 (ctx : MkextContext) (injection : Injection) :
    Except EfiStatus (MkextContext × Nat × Nat) :=
  let infoSize := injection.infoPlist.length
  let infoAligned := mkextAlign32 infoSize
  if ctx.numMaxKexts ≤ ctx.numKexts then .error .bufferTooSmall
  else if infoAligned < infoSize then .error .invalidParameter
  else
    match baseOverflowAdd u32 ctx.mkextSize infoAligned with
    | none => .error .invalidParameter
    | some plistEnd =>
      if ctx.mkext.length < plistEnd then .error .bufferTooSmall
      else
        match injection.executable with
        | none => .ok (placeV1 ctx injection.infoPlist none plistEnd, 0, 0)
        | some executable =>
          match env.parseKextBinary executable ctx.is32Bit with
          | none => .error .invalidParameter
          | some binary =>
            let aligned := mkextAlign32 binary.length
            match baseOverflowAdd u32 plistEnd aligned with
            | none => .error .invalidParameter
            | some newSize =>
              if aligned < binary.length then .error .invalidParameter
              else if ctx.mkext.length < newSize then .error .bufferTooSmall
              else .ok (placeV1 ctx injection.infoPlist (some (plistEnd, binary)) newSize,
                plistEnd, binary.length)

def keyNode (key : Bytes) : Tree := .mk (ascii "key") none (some key) []

def executableNodes (binOffset : Nat) : List Tree :=
  [keyNode mkextExecutableKey,
    .mk (ascii "integer") (some mkextInfoIntegerAttributes)
      (some (Plist.asciiUint64ToLowerHex binOffset)) []]

def pathNodes (bundlePath : Bytes) : List Tree :=
  [keyNode mkextBundlePathKey, .mk (ascii "string") none (some bundlePath) []]

/-- The `dict` node of an injected kext: its content is the exported plist, without
the two outer elements. -/
def bundleNode (length : Nat) (root dict : Tree) (added : List Tree) : Tree :=
  let tree := Tree.withChildren root [Tree.withChildren dict (Tree.children dict ++ added)]
  .mk (ascii "dict") none ((exportTree length tree 2).map fun exported => cString exported.1) []

def appendBundle (info : MkextInfo) (node : Tree) : MkextInfo :=
  info.withBundles (Tree.children info.bundles ++ [node])

def injectV2 (ctx : MkextContext) (info : MkextInfo) (injection : Injection)
    (document : XmlDocument) (dict : Tree) : Except EfiStatus (MkextContext × Nat × Nat) :=
  let listed (added : List Tree) (ctx : MkextContext) : MkextContext :=
    { ctx with
      info := some (appendBundle info (bundleNode document.length document.root.tree dict added)) }
  let binOffset := ctx.mkextInfoOffset
  match injection.executable with
  | none =>
    if (injection.appends && injection.lists) = false then .error .outOfResources
    else .ok (listed (pathNodes injection.bundlePath) ctx, 0, 0)
  | some executable =>
    match env.parseKextBinary executable ctx.is32Bit with
    | none => .error .invalidParameter
    | some binary =>
      let aligned := mkextAlign32 binary.length
      match baseOverflowTriAdd binOffset v2FileEntrySize aligned with
      | none => .error .invalidParameter
      | some plistOffset =>
        if aligned < binary.length then .error .invalidParameter
        else if ctx.mkext.length ≤ plistOffset then .error .bufferTooSmall
        else if (injection.appends && injection.lists) = false then .error .outOfResources
        else
          let entry := toBigEndian 4 0 ++ (toBigEndian 4 binary.length ++ binary)
          .ok (listed (executableNodes binOffset ++ pathNodes injection.bundlePath)
              { ctx with
                mkext := overlay ctx.mkext binOffset entry,
                mkextInfoOffset := plistOffset },
            binOffset + v2FileEntrySize, binary.length)

/-- The branch of `MkextInjectKext` on the version, once the identifier is known. -/
def injectVersion (ctx : MkextContext) (injection : Injection) (document : XmlDocument)
    (dict : Tree) : Except EfiStatus (MkextContext × Nat × Nat) :=
  if ctx.mkextVersion = mkextVersionV1 then injectV1 env ctx injection
  else if ctx.mkextVersion = mkextVersionV2 then
    match ctx.info with
    | none => .error .unsupported
    | some info => injectV2 env ctx info injection document dict
  else .error .unsupported

/-- `MkextInjectKext` behind the check for a kext that is present already. The plist
buffer is freed when the cache entry is made, so its identifier is what the freed
storage holds. -/
def injectAbsent (ctx : MkextContext) (injection : Injection) : EfiStatus × MkextContext :=
  if env.pool injection.infoPlist.length = false then (.outOfResources, ctx)
  else
    match xmlDocumentParse injection.infoPlist false with
    | none => (.invalidParameter, ctx)
    | some document =>
      match documentDict document.root.tree with
      | none => (.invalidParameter, ctx)
      | some dict =>
        match dictIdentifier (Tree.children dict) with
        | none => (.invalidParameter, ctx)
        | some _ =>
          match injectVersion env ctx injection document dict with
          | .error status => (status, ctx)
          | .ok (injected, binOffset, binSize) =>
            if injection.inserts then
              (.success, insertCachedMkextKext injected injection.freed binOffset binSize)
            else (.success, injected)

def mkextInjectKext (ctx : MkextContext) (injection : Injection) : EfiStatus × MkextContext :=
  match injection.identifier with
  | none => injectAbsent env ctx injection
  | some identifier =>
    match internalCachedMkextKext env ctx identifier injection.inserts with
    | (some _, found) => (.alreadyStarted, found)
    | (none, searched) => injectAbsent env searched injection

end Inject

section Exclude

/-- The loop of `PatcherExcludeMkextKext` over the bundles, with the variables for
the identifier and the offset; gives the index of the bundle and the offset. -/
def searchExcluded (ctx : MkextContext) (identifier : Bytes) :
    List Tree → Nat → Option Bytes × Nat → Option (Nat × Nat)
  | [], _, _ => none
  | bundle :: rest, index, fields =>
    if isDict bundle = false then searchExcluded ctx identifier rest (index + 1) fields
    else
      match bundleFields (fun value => isString value && (Tree.content value).isSome)
          (dictEntries (Tree.children bundle)) fields with
      | none => none
      | some (found, offset) =>
        if found = some identifier ∧ 0 < offset ∧ offset < ctx.mkextSize - v2FileEntrySize then
          some (index, offset)
        else searchExcluded ctx identifier rest (index + 1) (none, 0)

def zeroMem (mkext : Bytes) (offset size : Nat) : Bytes := overlay mkext offset (List.replicate size 0)

/-- `PatcherExcludeMkextKext`; the variables of its loop start as whatever the stack
holds. -/
def patcherExcludeMkextKext (ctx : MkextContext) (identifier : Bytes)
    (uninitialised : Option Bytes × Nat) : EfiStatus × MkextContext :=
  if ctx.mkextVersion = mkextVersionV1 then
    match internalGetMkextV1KextOffsets env ctx identifier with
    | .error status => (status, ctx)
    | .ok (index, offsets) =>
      let cleared := zeroMem (zeroMem ctx.mkext offsets.plistOffset offsets.plistSize)
        offsets.binOffset offsets.binSize
      (.success, { ctx with mkext := zeroMem cleared (v1KextOffset index) v1KextSize })
  else if ctx.mkextVersion = mkextVersionV2 then
    match ctx.info with
    | none => (.unsupported, ctx)
    | some info =>
      match searchExcluded ctx identifier (Tree.children info.bundles) 0 uninitialised with
      | none => (.notFound, ctx)
      | some (index, binOffset) =>
        if word ctx.mkext binOffset ≠ 0 then (.unsupported, ctx)
        else
          let binSize := word ctx.mkext (binOffset + 4)
          let cleared := { ctx with
            mkext := zeroMem ctx.mkext binOffset (binSize + v2FileEntrySize) }
          let dropped := internalDropCachedMkextKext cleared identifier
          (.success, { dropped with
            info := some (info.withBundles ((Tree.children info.bundles).eraseIdx index)) })
  else (.unsupported, ctx)

end Exclude

end OpenCore.MkextInject
