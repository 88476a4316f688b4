import OpenCore.PrelinkedKext

/-!
Injection of a kext, after `PrelinkedInjectKext` and `InternalLinkPrelinkedKext`.
The stages follow the source. The Mach-O library and the linker write into the
image through lists of writes they answer with; memory that may run out is asked
for by the place of the source that needs it.
-/

namespace OpenCore.PrelinkedInject

open Base ByteBuffer KernelCollection Plist PrelinkedKext

structure InjectRequest where
  identifier : Option Text
  bundlePath : Text
  infoPlist : Bytes
  executablePath : Text
  executable : Option Bytes

abbrev Writes := List (Nat × Bytes)

structure Expansion where
  size : Nat
  fileOffset : Nat
  writes : Writes

inductive Allocation where
  | infoPlistCopy
  | infoFields
  | identifierCopy
  | identifierInsert
  | compatibleVersionCopy
  | compatibleVersionInsert
  | exportedInfo
  | exportedInfoInsert
  | kextListAppend
  deriving DecidableEq

structure Injector extends Externals where
  executableSupported : Bytes → Bool → Bool
  machoExpandImage : Bytes → Nat → Expansion
  kextFindKmodAddress : Bytes → MachContext → Nat → Nat → Option Nat
  xmlDocumentParse : Bytes → Option XmlNode
  xmlDocumentExport : XmlNode → Bytes
  internalPrelinkKext : PrelinkedContext → KextRef → Nat → Nat → EfiStatus × Writes
  kextImage : PrelinkedContext → MachContext → KextImage
  kcKextApplyFileDelta : PrelinkedContext → MachContext → Nat → Bool × Writes
  memory : Allocation → PrelinkedContext → Bool

def writeAll (ctx : PrelinkedContext) (base : Nat) (writes : Writes) :
    PrelinkedContext :=
  writes.foldl (fun current entry => current.write (base + entry.1) entry.2) ctx

def pageStartOffset : Nat := 22

/-- The ranges one conversion writes: the table entry of a page or the fixup
before the new one, and the new fixup. -/
def conversionWrites (ctx : Context) (reloc : RelocationInfo) (relocBase : Nat) :
    List (Nat × Nat) :=
  let destination := relocDest ctx reloc relocBase
  let page := newFixupPage ctx reloc relocBase
  let offset := newFixupPageOffset ctx reloc relocBase
  let first := ctx.kextsFixupChains.pageStart.getD page startNone
  if first = startNone ∨ offset < first then
    [(ctx.kextsFixupChainsOffset + pageStartOffset + 2 * page, 2), (destination, 8)]
  else
    let pageData := ctx.kextsFileOffset + page * machoPageSize
    [(pageData + lastFixupBefore ctx.prelinked pageData offset machoPageSize first, 8),
      (destination, 8)]

def relocationWrites (relocBase : Nat) : Context → List RelocationInfo → List (Nat × Nat)
  | _, [] => []
  | ctx, reloc :: rest =>
    conversionWrites ctx reloc relocBase ++
      relocationWrites relocBase (internalKcConvertRelocToFixup ctx reloc relocBase) rest

def indexWrites (ctx : Context) (image : KextImage) : List (Nat × Nat) :=
  (image.headerOffset + 24, 4) ::
    relocationWrites image.firstSegmentAddress (markDylibInCache ctx image.headerOffset)
      (image.relocations.getD [])

section Stages
variable (env : Injector)

def prelinkedDependencyInsert (ctx : PrelinkedContext) (buffer : Text) : PrelinkedContext :=
  { ctx with pooledBuffers := ctx.pooledBuffers ++ [buffer] }

structure LoadedExecutable where
  machContext : MachContext
  kextOffset : Nat
  alignedSize : Nat
  fileOffset : Nat
  kmodAddress : Nat

/-- The first part of the injection: the image grows by nothing yet, but bytes
behind its end are written. -/
def loadExecutable (ctx : PrelinkedContext) (executable : Bytes) :
    Except EfiStatus LoadedExecutable × PrelinkedContext :=
  if !env.executableSupported executable ctx.is32Bit then
    (.error .invalidParameter, ctx)
  else
    let kextOffset := ctx.prelinkedSize
    let expansion := env.machoExpandImage executable
      (wrapSub u32 ctx.prelinkedAllocSize kextOffset)
    let expanded := writeAll ctx kextOffset expansion.writes
    let alignedSize := machoAlign u32 expansion.size
    match baseOverflowAdd u32 kextOffset alignedSize with
    | none => (.error .bufferTooSmall, expanded)
    | some newSize =>
      if newSize > ctx.prelinkedAllocSize ∨ expansion.size = 0 then
        (.error .bufferTooSmall, expanded)
      else
        let padded := expanded.write (kextOffset + expansion.size)
          (List.replicate (wrapSub u32 alignedSize expansion.size) 0)
        let machContext : MachContext := ⟨kextOffset, expansion.size, 0, expansion.size⟩
        if !env.machoInitializeContext padded.collection.prelinked machContext then
          (.error .invalidParameter, padded)
        else
          match baseOverflowAdd u64 ctx.prelinkedLastLoadAddress expansion.fileOffset with
          | none => (.error .invalidParameter, padded)
          | some loadAddress =>
            match env.kextFindKmodAddress padded.collection.prelinked machContext
                loadAddress expansion.size with
            | none => (.error .invalidParameter, padded)
            | some kmodAddress =>
              (.ok ⟨machContext, kextOffset, alignedSize, expansion.fileOffset, kmodAddress⟩,
                padded)

def temporary (value : Bytes) : Text := ⟨value, .temporary⟩

def appendField (root : XmlNode) (key type : String) (attributes : Option Text) (value : Text) :
    XmlNode :=
  xmlNodeAppend (xmlNodeAppend root "key" none (some (literal key))) type attributes (some value)

def integerAttributes : Text := literal "size=\"64\""

def appendFields (ctx : PrelinkedContext) (request : InjectRequest)
    (loaded : Option LoadedExecutable) (root : XmlNode) : XmlNode :=
  let withPath := appendField root "_PrelinkBundlePath" "string" none request.bundlePath
  match loaded with
  | none => withPath
  | some executable =>
    let number (node : XmlNode) (key : String) (value : Nat) : XmlNode :=
      appendField node key "integer" (some integerAttributes)
        (temporary (asciiUint64ToLowerHex value))
    let relative := appendField withPath "_PrelinkExecutableRelativePath" "string" none
      request.executablePath
    let source := number relative "_PrelinkExecutableSourceAddr" ctx.prelinkedLastAddress
    let load := number source "_PrelinkExecutableLoadAddr" ctx.prelinkedLastLoadAddress
    let size := number load "_PrelinkExecutableSize" executable.alignedSize
    number size "_PrelinkKmodInfo" executable.kmodAddress

def infoPlistRoot (infoPlist : Bytes) : Option XmlNode :=
  ((env.xmlDocumentParse infoPlist).bind plistDocumentRoot).bind fun root =>
    plistNodeCast (root.storedIn .temporary) .dict

/-- The strings of the entry are detached from the Info.plist copy, one after
the other; `none` is a pool that has run out. -/
def detachStrings (ctx : PrelinkedContext) (ref : KextRef) (kext : Kext) :
    Option PrelinkedContext × PrelinkedContext :=
  if !env.memory .identifierCopy ctx then (none, ctx)
  else if !env.memory .identifierInsert ctx then (none, ctx)
  else
    let identifier : Text := ⟨kext.identifier.value, .pooled⟩
    let named := prelinkedDependencyInsert
      (ctx.withKext ref { kext with identifier := identifier }) identifier
    match kext.compatibleVersion with
    | none => (some named, named)
    | some version =>
      if !env.memory .compatibleVersionCopy named then (none, named)
      else if !env.memory .compatibleVersionInsert named then (none, named)
      else
        let compatibleVersion : Text := ⟨version.value, .pooled⟩
        let detached := prelinkedDependencyInsert
          (named.withKext ref
            { kext with identifier := identifier, compatibleVersion := some compatibleVersion })
          compatibleVersion
        (some detached, detached)

def withAddresses (ctx : PrelinkedContext) (ref : KextRef)
    (virtualBase virtualKmod : Nat) : PrelinkedContext :=
  match ctx.kext ref with
  | none => ctx
  | some kext =>
    ctx.withKext ref { kext with
      context := { kext.context with virtualBase := virtualBase, virtualKmod := virtualKmod } }

/-- `InternalLinkPrelinkedKext`; the outer `none` is a scan that does not end. -/
def internalLinkPrelinkedKext (fuel : Nat) (ctx : PrelinkedContext)
    (executable : LoadedExecutable) (root : XmlNode) :
    Option (Option KextRef × PrelinkedContext) :=
  match internalNewPrelinkedKext env.toExternals executable.machContext ctx.is32Bit root with
  | none => some (none, ctx)
  | some kext =>
    let ref := ctx.heap.length
    (internalScanPrelinkedKext env.toExternals fuel ref false (ctx.allocate kext)).map
      fun (status, scanned) =>
        if status.isError then (none, scanned.free ref)
        else
          match detachStrings env scanned ref ((scanned.kext ref).getD kext) with
          | (none, after) => (none, after.free ref)
          | (some detached, _) =>
            let placed := withAddresses detached ref
              ctx.prelinkedLastLoadAddress executable.kmodAddress
            let (linkStatus, writes) := env.internalPrelinkKext placed ref
              ctx.prelinkedLastLoadAddress executable.fileOffset
            let linked := writeAll placed executable.kextOffset writes
            if linkStatus.isError then (none, linked.free ref) else (some ref, linked)

def advance (ctx : PrelinkedContext) (alignedSize : Nat) : PrelinkedContext :=
  { ctx with
    prelinkedSize := (ctx.prelinkedSize + alignedSize) % u32
    prelinkedLastAddress := (ctx.prelinkedLastAddress + alignedSize) % u64
    prelinkedLastLoadAddress := (ctx.prelinkedLastLoadAddress + alignedSize) % u64 }

def withContainer (ctx : PrelinkedContext) (ref : KextRef) :
    PrelinkedContext :=
  match ctx.kext ref with
  | none => ctx
  | some kext =>
    let window := kext.context.machContext
    ctx.withKext ref { kext with
      context := { kext.context with
        machContext := { window with
          fileOffset := 0
          fileSize := ctx.prelinkedSize
          headerOffset := window.fileOffset + window.headerOffset } } }

def integrateKext (ctx : PrelinkedContext) (ref : KextRef) (executable : LoadedExecutable) :
    EfiStatus × PrelinkedContext :=
  let moved := advance ctx executable.alignedSize
  if moved.isKernelCollection then
    let image := env.kextImage moved executable.machContext
    let indexed := { moved with
      collection := kcKextIndexFixups moved.collection image
      written := moved.written ++ indexWrites moved.collection image }
    let (supported, writes) := env.kcKextApplyFileDelta indexed executable.machContext
      executable.kextOffset
    let rebased := writeAll indexed executable.kextOffset writes
    if !supported then (.unsupported, rebased)
    else (.success, withContainer rebased ref)
  else
    let modulus := if moved.is32Bit then u32 else u64
    let grown (value : Nat) : Nat := (value + executable.alignedSize) % modulus
    (.success, { moved with
      textSegment := { moved.textSegment with
        size := grown moved.textSegment.size, fileSize := grown moved.textSegment.fileSize }
      textSectionSize := grown moved.textSectionSize })

def freeOption (ctx : PrelinkedContext) (ref : Option KextRef) :
    PrelinkedContext :=
  match ref with
  | none => ctx
  | some ref => ctx.free ref

/-- The last part: the plist goes into `KextList` and the entry into the lists. -/
def publishKext (ctx : PrelinkedContext) (ref : Option KextRef) (root : XmlNode) :
    EfiStatus × PrelinkedContext :=
  if !env.memory .exportedInfo ctx then
    (.outOfResources, freeOption ctx ref)
  else if !env.memory .exportedInfoInsert ctx then
    (.outOfResources, freeOption ctx ref)
  else
    let newInfoPlist : Text := ⟨env.xmlDocumentExport root, .pooled⟩
    let stored := prelinkedDependencyInsert ctx newInfoPlist
    if !env.memory .kextListAppend stored then
      (.outOfResources, freeOption stored ref)
    else
      let listed := { stored with
        kextList := stored.kextList ++ [.mk (literal "dict") none (some newInfoPlist) none []] }
      match ref with
      | none => (.success, listed)
      | some ref =>
        (.success, { listed with
          prelinkedKexts := listed.prelinkedKexts ++ [ref]
          injectedKexts := listed.injectedKexts ++ [ref] })

structure LinkedRequest where
  entry : Option (KextRef × LoadedExecutable)
  root : XmlNode

def linkLoaded (fuel : Nat) (request : InjectRequest) (loaded : Option LoadedExecutable)
    (ctx : PrelinkedContext) :
    Option (Except EfiStatus LinkedRequest × PrelinkedContext) :=
  if !env.memory .infoPlistCopy ctx then some (.error .outOfResources, ctx)
  else
    match infoPlistRoot env request.infoPlist with
    | none => some (.error .invalidParameter, ctx)
    | some root =>
      if !env.memory .infoFields ctx then some (.error .outOfResources, ctx)
      else
        let full := appendFields ctx request loaded root
        match loaded with
        | none => some (.ok ⟨none, full⟩, ctx)
        | some executable =>
          (internalLinkPrelinkedKext env fuel ctx executable full).map fun
            | (none, after) => (.error .invalidParameter, after)
            | (some ref, linked) => (.ok ⟨some (ref, executable), full⟩, linked)

def presentKext (ctx : PrelinkedContext) (identifier : Option Text) :
    Option KextRef × PrelinkedContext :=
  match identifier with
  | none => (none, ctx)
  | some identifier => internalCachedPrelinkedKext env.toExternals ctx identifier

/-- `PrelinkedInjectKext` up to the point where the layout starts to change. -/
def linkRequest (fuel : Nat) (request : InjectRequest) (ctx : PrelinkedContext) :
    Option (Except EfiStatus LinkedRequest × PrelinkedContext) :=
  let (known, checked) := presentKext env ctx request.identifier
  if known.isSome then some (.error .alreadyStarted, checked)
  else
    match request.executable with
    | none => linkLoaded env fuel request none checked
    | some executable =>
      match loadExecutable env checked executable with
      | (.error status, after) => some (.error status, after)
      | (.ok loaded, after) => linkLoaded env fuel request (some loaded) after

def commitRequest (linked : LinkedRequest) (ctx : PrelinkedContext) :
    EfiStatus × PrelinkedContext :=
  match linked.entry with
  | none => publishKext env ctx none linked.root
  | some (ref, executable) =>
    let (status, integrated) := integrateKext env ctx ref executable
    if status.isError then (status, integrated)
    else publishKext env integrated (some ref) linked.root

def prelinkedInjectKext (fuel : Nat) (request : InjectRequest) (ctx : PrelinkedContext) :
    Option (EfiStatus × PrelinkedContext) :=
  (linkRequest env fuel request ctx).map fun
    | (.error status, after) => (status, after)
    | (.ok linked, after) => commitRequest env linked after

end Stages

end OpenCore.PrelinkedInject
