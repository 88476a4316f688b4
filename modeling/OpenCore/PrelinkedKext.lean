import OpenCore.KernelCollection
import OpenCore.Plist

/-!
Cached kexts of a prelinked image, after `PrelinkedKext.c`. A `PRELINKED_KEXT`
lives in a heap cell and is known by its reference; the context keeps the list
of cached references. Mach-O parsing, symbol tables and vtables are parameters,
and so is the pool: it says for which identifiers there is memory for an entry.
The KXLD state of 10.6.8 only feeds the symbol tables and is left out.
-/

namespace OpenCore.PrelinkedKext

open Base ByteBuffer KernelCollection Plist

abbrev KextRef := Nat

structure MachContext where
  fileOffset : Nat
  fileSize : Nat
  headerOffset : Nat
  innerSize : Nat
  deriving DecidableEq

structure PatcherContext where
  machContext : MachContext
  is32Bit : Bool
  virtualBase : Nat
  virtualKmod : Nat
  isKernelCollection : Bool
  deriving DecidableEq

structure Kext where
  identifier : Text
  context : PatcherContext
  bundleLibraries : Option XmlNode
  compatibleVersion : Option Text
  dependencies : List (Option KextRef)

def maxKextDependencies : Nat := 16

def noDependencies : List (Option KextRef) := List.replicate maxKextDependencies none

def kernelIdentifier : String := "__kernel__"
def kpiPrefix : String := "com.apple.kpi."
def hidSystem : String := "com.apple.iokit.IOHIDSystem"
def hidFamily : String := "com.apple.iokit.IOHIDFamily"

structure SegmentCommand where
  commandOffset : Nat
  commandSize : Nat
  virtualAddress : Nat
  size : Nat
  fileOffset : Nat
  fileSize : Nat
  deriving DecidableEq

/-- `PRELINKED_CONTEXT`: the image with its fixup tables is `collection`, and
`written` lists the ranges of the image that were written so far. -/
structure PrelinkedContext where
  collection : Context
  written : List (Nat × Nat)
  prelinkedSize : Nat
  prelinkedAllocSize : Nat
  prelinkedLastAddress : Nat
  prelinkedLastLoadAddress : Nat
  is32Bit : Bool
  isKernelCollection : Bool
  baseSegment : SegmentCommand
  textSegment : SegmentCommand
  textSectionSize : Nat
  prelinkedMachContext : MachContext
  innerMachContext : MachContext
  kextList : List XmlNode
  heap : List (Option Kext)
  prelinkedKexts : List KextRef
  injectedKexts : List KextRef
  pooledBuffers : List Text
  linkSteps : Nat

/-- The code around the cache: what it says depends on bytes and memory that
are not part of this model. -/
structure Externals where
  kcGetKextSize : Context → Nat → Nat
  machoInitializeContext : Bytes → MachContext → Bool
  kernelVirtualBase : Bytes → Option Nat
  entryPool : Bytes → Bool
  linkStep : KextRef → Bool → Nat → EfiStatus

namespace PrelinkedContext

def kext (context : PrelinkedContext) (ref : KextRef) : Option Kext :=
  context.heap.getD ref none

def withKext (context : PrelinkedContext) (ref : KextRef) (kext : Kext) : PrelinkedContext :=
  { context with heap := context.heap.set ref (some kext) }

def allocate (context : PrelinkedContext) (kext : Kext) : PrelinkedContext :=
  { context with heap := context.heap ++ [some kext] }

def free (context : PrelinkedContext) (ref : KextRef) : PrelinkedContext :=
  { context with heap := context.heap.set ref none }

/-- A copy into the image. Bytes outside of the allocation are not kept, but the
range is recorded as written all the same. -/
def write (context : PrelinkedContext) (offset : Nat) (data : Bytes) : PrelinkedContext :=
  { context with
    collection := { context.collection with
      prelinked := overlay context.collection.prelinked offset data }
    written := context.written ++ [(offset, data.length)] }

def insert (context : PrelinkedContext) (ref : KextRef) : PrelinkedContext :=
  { context with prelinkedKexts := context.prelinkedKexts ++ [ref] }

end PrelinkedContext

section Create

structure KextFields where
  identifier : Option Text
  bundleLibraries : Option XmlNode
  bundleLibraries64 : Option XmlNode
  compatibleVersion : Option Text
  virtualBase : Nat
  virtualKmod : Nat
  sourceBase : Nat
  sourceSize : Nat
  kxldState : Nat
  kxldStateSize : Nat
  found : Bool

def initialFields (identifier : Option Bytes) : KextFields where
  identifier := none
  bundleLibraries := none
  bundleLibraries64 := none
  compatibleVersion := none
  virtualBase := 0
  virtualKmod := 0
  sourceBase := 0
  sourceSize := 0
  kxldState := 0
  kxldStateSize := 0
  found := identifier.isNone

def infoBundleIdentifierKey : Bytes := ascii "CFBundleIdentifier"
def infoBundleLibrariesKey : Bytes := ascii "OSBundleLibraries"
def infoBundleLibraries64Key : Bytes := ascii "OSBundleLibraries_x86_64"
def infoBundleCompatibleVersionKey : Bytes := ascii "OSBundleCompatibleVersion"
def prelinkInfoExecutableLoadAddrKey : Bytes := ascii "_PrelinkExecutableLoadAddr"
def prelinkInfoKmodInfoKey : Bytes := ascii "_PrelinkKmodInfo"
def prelinkInfoExecutableSourceAddrKey : Bytes := ascii "_PrelinkExecutableSourceAddr"
def prelinkInfoExecutableSizeKey : Bytes := ascii "_PrelinkExecutableSize"
def prelinkInfoLinkStateAddrKey : Bytes := ascii "_PrelinkLinkState"
def prelinkInfoLinkStateSizeKey : Bytes := ascii "_PrelinkLinkStateSize"

abbrev FieldRead := KextFields × Bool

def integerField (fields : KextFields) (value : XmlNode) (modulus : Nat)
    (store : Nat → KextFields) : FieldRead :=
  match plistIntegerValue value modulus true with
  | none => (fields, false)
  | some number => (store number, true)

def createInteger (fields : KextFields) (key : Bytes) (value : XmlNode) : FieldRead :=
  if fields.virtualBase = 0 ∧ key = prelinkInfoExecutableLoadAddrKey then
    integerField fields value u64 fun number => { fields with virtualBase := number }
  else if fields.virtualKmod = 0 ∧ key = prelinkInfoKmodInfoKey then
    integerField fields value u64 fun number => { fields with virtualKmod := number }
  else if fields.sourceBase = 0 ∧ key = prelinkInfoExecutableSourceAddrKey then
    integerField fields value u64 fun number => { fields with sourceBase := number }
  else if fields.sourceSize = 0 ∧ key = prelinkInfoExecutableSizeKey then
    integerField fields value u64 fun number => { fields with sourceSize := number }
  else if fields.kxldState = 0 ∧ key = prelinkInfoLinkStateAddrKey then
    integerField fields value u64 fun number => { fields with kxldState := number }
  else if fields.kxldStateSize = 0 ∧ key = prelinkInfoLinkStateSizeKey then
    integerField fields value u32 fun number => { fields with kxldStateSize := number }
  else (fields, true)

def createIdentifier (identifier : Option Bytes) (fields : KextFields) (value : XmlNode) :
    FieldRead :=
  let content := xmlNodeContent value
  if (plistNodeCast value .string).isNone ∨ content.isNone then
    ({ fields with identifier := content }, false)
  else
    let same : Bool := content.map Text.value = identifier
    ({ fields with identifier := content, found := fields.found || same }, true)

def createField (prelinked : Bool) (identifier : Option Bytes) (is32Bit : Bool)
    (fields : KextFields) (key : Bytes) (value : XmlNode) : FieldRead :=
  if fields.identifier.isNone ∧ key = infoBundleIdentifierKey then
    createIdentifier identifier fields value
  else if fields.bundleLibraries.isNone ∧ key = infoBundleLibrariesKey then
    if (plistNodeCast value .dict).isNone then (fields, false)
    else ({ fields with bundleLibraries := some value }, true)
  else if fields.bundleLibraries64.isNone ∧ key = infoBundleLibraries64Key ∧
      is32Bit = false then
    if (plistNodeCast value .dict).isNone then (fields, false)
    else
      ({ fields with bundleLibraries := some value, bundleLibraries64 := some value }, true)
  else if fields.compatibleVersion.isNone ∧ key = infoBundleCompatibleVersionKey then
    if (plistNodeCast value .string).isNone then (fields, false)
    else
      let content := xmlNodeContent value
      ({ fields with compatibleVersion := content }, content.isSome)
  else if prelinked then createInteger fields key value
  else (fields, true)

def fieldsComplete (prelinked is32Bit : Bool) (fields : KextFields) : Bool :=
  fields.identifier.isSome &&
    (if is32Bit then fields.bundleLibraries.isSome else fields.bundleLibraries64.isSome) &&
    fields.compatibleVersion.isSome &&
    (!prelinked || (fields.virtualBase ≠ 0 && fields.virtualKmod ≠ 0 && fields.sourceBase ≠ 0 &&
      fields.sourceSize ≠ 0 && fields.kxldState ≠ 0 && fields.kxldStateSize ≠ 0))

def createFields (prelinked : Bool) (identifier : Option Bytes) (is32Bit : Bool) :
    List (XmlNode × XmlNode) → KextFields → KextFields
  | [], fields => fields
  | (key, value) :: rest, fields =>
    match plistKeyValue key with
    | none => createFields prelinked identifier is32Bit rest fields
    | some name =>
      let (next, more) := createField prelinked identifier is32Bit fields name.value value
      if !more || fieldsComplete prelinked is32Bit next then next
      else createFields prelinked identifier is32Bit rest next

/-- The Mach-O window of an entry with an executable: in a kernel collection it
is the whole image, with the header of the kext inside. -/
def executableWindow (env : Externals) (context : PrelinkedContext) (fields : KextFields) :
    Option MachContext :=
  let calculated := env.kcGetKextSize context.collection fields.sourceBase
  let sourceSize :=
    if context.isKernelCollection ∧ calculated < u32 - 1 ∧ calculated > fields.sourceSize then
      calculated
    else fields.sourceSize
  let relative := wrapSub u64 fields.sourceBase context.baseSegment.virtualAddress
  (baseOverflowAdd u64 relative context.baseSegment.fileOffset).bind fun sourceBase =>
    (baseOverflowAdd u64 sourceBase sourceSize).bind fun sourceEnd =>
      if sourceEnd > context.prelinkedSize then none
      else if context.isKernelCollection then
        some ⟨0, context.prelinkedSize % u32, sourceBase % u32, sourceSize % u32⟩
      else some ⟨sourceBase, sourceSize % u32, 0, sourceSize % u32⟩

def emptyMachContext : MachContext := ⟨0, 0, 0, 0⟩

def internalCreatePrelinkedKext (env : Externals) (context : PrelinkedContext)
    (kextPlist : XmlNode) (identifier : Bytes) : Option Kext :=
  let fields := createFields true (some identifier) context.is32Bit
    (plistDictChildren kextPlist) (initialFields (some identifier))
  match fields.identifier with
  | none => none
  | some kextIdentifier =>
    let hasExe : Bool := fields.virtualBase ≠ 0 ∧ fields.sourceBase ≠ 0 ∧
      fields.sourceSize ≠ 0 ∧ fields.sourceSize < u32
    let isKpi : Bool := fields.virtualBase = 0 ∧ fields.sourceBase = 0 ∧
      fields.sourceSize = 0 ∧ fields.kxldState ≠ 0 ∧ fields.kxldStateSize ≠ 0 ∧
      context.isKernelCollection = false
    if !fields.found ∨ fields.sourceBase < fields.virtualBase then none
    else if !isKpi && !hasExe then none
    else
      let window := if hasExe then executableWindow env context fields
        else some emptyMachContext
      window.bind fun machContext =>
        if !env.entryPool kextIdentifier.value then none
        else if hasExe &&
            !env.machoInitializeContext context.collection.prelinked machContext then none
        else
          some {
            identifier := kextIdentifier
            context := {
              machContext := machContext
              is32Bit := context.is32Bit
              virtualBase := fields.virtualBase
              virtualKmod := fields.virtualKmod
              isKernelCollection := context.isKernelCollection }
            bundleLibraries := fields.bundleLibraries
            compatibleVersion := fields.compatibleVersion
            dependencies := noDependencies }

def internalNewPrelinkedKext (env : Externals) (executable : MachContext) (is32Bit : Bool)
    (kextPlist : XmlNode) : Option Kext :=
  let fields := createFields false none is32Bit (plistDictChildren kextPlist) (initialFields none)
  fields.identifier.bind fun kextIdentifier =>
    if !env.entryPool kextIdentifier.value then none
    else
      some {
        identifier := kextIdentifier
        context := {
          machContext := executable
          is32Bit := is32Bit
          virtualBase := 0
          virtualKmod := 0
          isKernelCollection := false }
        bundleLibraries := fields.bundleLibraries
        compatibleVersion := fields.compatibleVersion
        dependencies := noDependencies }

end Create

section Cache
variable (env : Externals)

def cachedKext (context : PrelinkedContext) (identifier : Bytes) : Option KextRef :=
  context.prelinkedKexts.find? fun ref =>
    (context.kext ref).any fun kext => kext.identifier.value = identifier

def listedKext (context : PrelinkedContext) (identifier : Bytes) : Option Kext :=
  context.kextList.findSome? fun node =>
    (plistNodeCast node .dict).bind fun kextPlist =>
      internalCreatePrelinkedKext env context kextPlist identifier

def stubKext (context : PrelinkedContext) (identifier : Text) : Kext where
  identifier := identifier
  context := {
    machContext := context.innerMachContext
    is32Bit := false
    virtualBase := 0
    virtualKmod := 0
    isKernelCollection := false }
  bundleLibraries := none
  compatibleVersion := none
  dependencies := noDependencies

def freshKext (context : PrelinkedContext) (identifier : Text) : Option Kext :=
  match listedKext env context identifier.value with
  | some kext => some kext
  | none =>
    if context.isKernelCollection ∧ env.entryPool identifier.value then
      some (stubKext context identifier)
    else none

def internalCachedPrelinkedKext (context : PrelinkedContext) (identifier : Text) :
    Option KextRef × PrelinkedContext :=
  match cachedKext context identifier.value with
  | some ref => (some ref, context)
  | none =>
    match freshKext env context identifier with
    | none => (none, context)
    | some kext => (some context.heap.length, (context.allocate kext).insert context.heap.length)

def kernelKext (context : PrelinkedContext) (virtualBase : Nat) : Kext where
  identifier := literal kernelIdentifier
  context := {
    machContext := context.prelinkedMachContext
    is32Bit := context.is32Bit
    virtualBase := virtualBase
    virtualKmod := 0
    isKernelCollection := context.isKernelCollection }
  bundleLibraries := none
  compatibleVersion := some (literal "0")
  dependencies := noDependencies

/-- `InternalCachedPrelinkedKernel`: the first entry is the prelinked kernel. -/
def internalCachedPrelinkedKernel (context : PrelinkedContext) :
    Option KextRef × PrelinkedContext :=
  match context.prelinkedKexts with
  | kernel :: _ => (some kernel, context)
  | [] =>
    match env.kernelVirtualBase context.collection.prelinked with
    | none => (none, context)
    | some virtualBase =>
      if env.entryPool (ascii kernelIdentifier) then
        (some context.heap.length,
          (context.allocate (kernelKext context virtualBase)).insert context.heap.length)
      else (none, context)

def internalGetQuirkDependencyKext (context : PrelinkedContext) (dependencyId : Bytes) :
    Option KextRef × PrelinkedContext :=
  if dependencyId = ascii hidSystem then
    internalCachedPrelinkedKext env context (literal hidFamily)
  else (none, context)

def dependencyKext (context : PrelinkedContext) (dependencyId : Text) :
    Option KextRef × PrelinkedContext :=
  match internalCachedPrelinkedKext env context dependencyId with
  | (some ref, after) => (some ref, after)
  | (none, after) => internalGetQuirkDependencyKext env after dependencyId.value

def isKpi (identifier : Bytes) : Bool := (ascii kpiPrefix).isPrefixOf identifier

end Cache

section Scan
variable (env : Externals)

abbrev Scan := KextRef → PrelinkedContext → Option (EfiStatus × PrelinkedContext)

def PrelinkedContext.setDependency (context : PrelinkedContext) (ref : KextRef) (index : Nat)
    (dependency : KextRef) : PrelinkedContext :=
  match context.kext ref with
  | none => context
  | some kext =>
    context.withKext ref
      { kext with dependencies := kext.dependencies.set index (some dependency) }

def PrelinkedContext.clearLibraries (context : PrelinkedContext) (ref : KextRef) :
    PrelinkedContext :=
  match context.kext ref with
  | none => context
  | some kext => context.withKext ref { kext with bundleLibraries := none }

def internalInsertPrelinkedKextDependency (scan : Scan) (ref : KextRef) (index : Nat)
    (dependency : KextRef) (context : PrelinkedContext) : Option (EfiStatus × PrelinkedContext) :=
  if index ≥ maxKextDependencies then some (.outOfResources, context)
  else
    (scan dependency context).map fun (status, after) =>
      if status.isError then (status, after)
      else (.success, after.setDependency ref index dependency)

def scanLibraries (scan : Scan) (ref : KextRef) :
    List Text → Nat → PrelinkedContext → Option (EfiStatus × PrelinkedContext)
  | [], _, context => some (.success, context)
  | dependencyId :: rest, index, context =>
    if context.isKernelCollection && isKpi dependencyId.value then
      scanLibraries scan ref rest index context
    else
      match dependencyKext env context dependencyId with
      | (none, after) => scanLibraries scan ref rest index after
      | (some dependency, after) =>
        (internalInsertPrelinkedKextDependency scan ref index dependency after).bind
          fun (status, inserted) =>
            if status.isError then some (status, inserted)
            else scanLibraries scan ref rest (index + 1) inserted

def scanKernel (scan : Scan) (ref : KextRef) (context : PrelinkedContext) :
    Option (EfiStatus × PrelinkedContext) :=
  match internalCachedPrelinkedKernel env context with
  | (none, after) => some (.notFound, after)
  | (some kernel, after) =>
    if kernel = ref then some (.success, after)
    else internalInsertPrelinkedKextDependency scan ref 0 kernel after

def scanBundleLibraries (scan : Scan) (ref : KextRef) (context : PrelinkedContext) :
    Option (EfiStatus × PrelinkedContext) :=
  match (context.kext ref).bind Kext.bundleLibraries with
  | none => some (.success, context)
  | some libraries =>
    (scanLibraries env scan ref (plistDictKeys libraries) 1 context).map
      fun (status, after) =>
        if status.isError then (status, after) else (.success, after.clearLibraries ref)

/-- `InternalScanPrelinkedKext` down to a depth of `fuel` calls. The link buffer
and the symbol tables of the last part are one step with a given outcome. -/
def internalScanPrelinkedKext : Nat → KextRef → Bool → PrelinkedContext →
    Option (EfiStatus × PrelinkedContext)
  | 0, _, _, _ => none
  | fuel + 1, ref, dependency, context =>
    let scan : Scan := fun other current => internalScanPrelinkedKext fuel other true current
    (scanKernel env scan ref context).bind fun (kernelStatus, withKernel) =>
      if kernelStatus.isError then some (kernelStatus, withKernel)
      else
        (scanBundleLibraries env scan ref withKernel).map fun (status, after) =>
          if status.isError then (status, after)
          else
            (env.linkStep ref dependency after.linkSteps,
              { after with linkSteps := after.linkSteps + 1 })

end Scan

end OpenCore.PrelinkedKext
