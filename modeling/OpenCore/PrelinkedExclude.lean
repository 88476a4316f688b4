import OpenCore.MachoWindows
import OpenCore.PrelinkedKext

/-!
`PatcherExcludePrelinkedKext`: the memory of a kext is filled with zeros, and its entries
are taken out of the plist of the image and out of the cache. The memory is filled before
the plist is searched.
-/

namespace OpenCore.PrelinkedExclude

open Base ByteBuffer MachoImage MachoLookup MachoWindows Plist PrelinkedKext List

/-- The patcher context of a kext, with its file at an offset of the image. The names are
the 16 bytes that segments and sections keep, by their indices. -/
structure KextFile where
  lookup : Lookup
  fileOffset : Nat
  headerOffset : Nat
  innerSize : Nat
  virtualBase : Nat
  segmentNames : Nat → Bytes
  sectionNames : Nat → Nat → Bytes
  innerFits : headerOffset + innerSize ≤ lookup.fileSize

def textSegmentName : Bytes := ascii "__TEXT"

def textSectionName : Bytes := ascii "__text"

section Erase
variable (file : KextFile)

/-- `AsciiStrCmp` and `AsciiStrnCmp` of a name of 16 bytes with a shorter text. -/
def nameIs (name text : Bytes) : Bool := name.take (text.length + 1) == text ++ [0]

def segmentByName (text : Bytes) : Option PlacedSegment :=
  ((List.range file.lookup.segments.length).find? fun index =>
    nameIs (file.segmentNames index) text).bind fun index => file.lookup.segments[index]?

/-- The loop of `MachoGetSectionByName`, with a turn for each section left. -/
def sectionByNameAfter (segment : PlacedSegment) (names : Nat → Bytes) (text : Bytes) :
    Nat → Option Nat → Option PlacedSection
  | 0, _ => none
  | left + 1, current =>
    match machoGetNextSection file.lookup segment current with
    | none => none
    | some (index, sect) =>
      if nameIs (names index) text then some sect
      else sectionByNameAfter segment names text left (some index)

/-- The address and the file offset of the text segment, if the one is not below the
other. -/
def textSegmentBase : Option (Nat × Nat) :=
  match segmentByName file textSegmentName with
  | none => none
  | some segment =>
    if segment.virtualAddress < segment.fileOffset then none
    else some (segment.virtualAddress, segment.fileOffset)

def getTextBaseOffset : Option (Nat × Nat) :=
  match file.lookup.arch with
  | .mach32 =>
    match file.lookup.segments with
    | [] => none
    | segment :: _ =>
      if nameIs (file.segmentNames 0) [] then
        (sectionByNameAfter file segment (file.sectionNames 0) textSectionName
          segment.sections.length none).map fun sect => (sect.address, sect.offset)
      else textSegmentBase file
  | .mach64 => textSegmentBase file

def addressMaxFrom : Nat → List PlacedSegment → Nat
  | addressMax, [] => addressMax
  | addressMax, segment :: rest =>
    if addressMax ≠ 0 ∧ addressMax ≠ segment.virtualAddress then addressMax
    else addressMaxFrom (max (segment.virtualAddress + segment.size) addressMax) rest

def eraseAddress : Option Nat :=
  match file.lookup.arch with
  | .mach32 =>
    (getTextBaseOffset file).map fun (virtualAddress, fileOffset) =>
      (virtualAddress + fileOffset) % limit .mach32
  | .mach64 => some file.virtualBase

def erasedWindow (uintn : Nat) : Option Window :=
  match eraseAddress file with
  | none => none
  | some virtualAddress =>
    match internalMachoGetFilePointerByAddress file.lookup uintn virtualAddress with
    | none => none
    | some window =>
      let maxSize := wrapSub u64 (addressMaxFrom 0 file.lookup.segments) file.virtualBase
      some ⟨file.fileOffset + window.offset, maxSize % uintn⟩

end Erase

section Exclude

def internalDropCachedPrelinkedKext (ctx : PrelinkedContext) (identifier : Bytes) :
    Option PrelinkedContext :=
  match cachedKext ctx identifier with
  | none => none
  | some ref => some
      ({ ctx with prelinkedKexts := ctx.prelinkedKexts.erase ref }.free ref)

inductive Verdict where
  | passed
  | malformed
  | named

def searchEntries (identifier : Bytes) : List (XmlNode × XmlNode) → Verdict
  | [] => .passed
  | (key, value) :: rest =>
    match plistKeyValue key with
    | none => searchEntries identifier rest
    | some kextPlistKey =>
      if kextPlistKey.value = infoBundleIdentifierKey then
        match plistNodeCast value .string, xmlNodeContent value with
        | some _, some kextIdentifier =>
          if kextIdentifier.value = identifier then .named else searchEntries identifier rest
        | _, _ => .malformed
      else searchEntries identifier rest

def excludeFrom (ctx : PrelinkedContext) (identifier : Bytes) :
    List XmlNode → Nat → EfiStatus × PrelinkedContext
  | [], _ => (.notFound, ctx)
  | node :: rest, index =>
    match plistNodeCast node .dict with
    | none => excludeFrom ctx identifier rest (index + 1)
    | some kextPlist =>
      match searchEntries identifier (plistDictChildren kextPlist) with
      | .passed => excludeFrom ctx identifier rest (index + 1)
      | .malformed => (.notFound, ctx)
      | .named =>
        match internalDropCachedPrelinkedKext ctx identifier with
        | none => (.notFound, ctx)
        | some dropped =>
          (.success, { dropped with kextList := dropped.kextList.eraseIdx index })

def patcherExcludePrelinkedKext (file : KextFile) (uintn : Nat) (identifier : Bytes)
    (ctx : PrelinkedContext) : EfiStatus × PrelinkedContext :=
  match erasedWindow file uintn with
  | none => (.unsupported, ctx)
  | some window =>
    let erased := ctx.write window.offset (replicate window.maxSize 0)
    excludeFrom erased identifier erased.kextList 0

end Exclude

section Entries

variable {value : Option Bytes}

def identifierOf (value : XmlNode) : Option Bytes :=
  (plistNodeCast value .string).bind fun _ => (xmlNodeContent value).map Text.value

def isIdentifierEntry (entry : XmlNode × XmlNode) : Bool :=
  (plistKeyValue entry.1).map Text.value == some infoBundleIdentifierKey

def identifierValues (node : XmlNode) : List (Option Bytes) :=
  match plistNodeCast node .dict with
  | none => []
  | some kextPlist =>
    ((plistDictChildren kextPlist).filter isIdentifierEntry).map fun entry => identifierOf entry.2

def decisive (identifier : Bytes) (values : List (Option Bytes)) : Option (Option Bytes) :=
  values.find? fun value => value == none || value == some identifier

def Listed (identifier : Bytes) (kextList : List XmlNode) (index : Nat) : Prop :=
  (∃ node, kextList[index]? = some node ∧
    decisive identifier (identifierValues node) = some (some identifier)) ∧
  ∀ earlier < index, ∀ node, kextList[earlier]? = some node →
    decisive identifier (identifierValues node) = none

def verdictOf : Option (Option Bytes) → Verdict
  | none => .passed
  | some none => .malformed
  | some (some _) => .named

variable {identifier : Bytes}

theorem searchEntries_eq (entries : List (XmlNode × XmlNode)) :
    searchEntries identifier entries = verdictOf (decisive identifier
        ((entries.filter isIdentifierEntry).map fun entry => identifierOf entry.2)) := by
  induction entries with
  | nil => rfl
  | cons entry rest ih =>
    obtain ⟨key, value⟩ := entry
    rw [searchEntries]
    cases name : plistKeyValue key with
    | none => simpa [isIdentifierEntry, name] using ih
    | some kextPlistKey =>
      by_cases same : kextPlistKey.value = infoBundleIdentifierKey
      · have kept : isIdentifierEntry (key, value) = true := by
          simp [isIdentifierEntry, name, same]
        rw [filter_cons_of_pos kept, map_cons]
        simp only [same, if_true]
        cases text : plistNodeCast value .string with
        | none => simp [decisive, identifierOf, text, verdictOf]
        | some node =>
          cases content : xmlNodeContent value with
          | none => simp [decisive, identifierOf, text, content, verdictOf]
          | some kextIdentifier =>
            by_cases hit : kextIdentifier.value = identifier
            · simp [decisive, identifierOf, text, content, verdictOf, hit]
            · simpa [decisive, identifierOf, text, content, hit] using ih
      · have dropped : isIdentifierEntry (key, value) = false := by
          simp [isIdentifierEntry, name, same]
        rw [filter_cons_of_neg (by simp [dropped])]
        simpa only [same, if_false] using ih

theorem decisive_named {values : List (Option Bytes)} {text : Bytes}
    (found : decisive identifier values = some (some text)) : text = identifier := by
  have chosen := find?_some found
  simpa using chosen

/-- What a node of `KextList` comes to. -/
theorem searchNode_eq {node : XmlNode} {kextPlist : XmlNode}
    (cast : plistNodeCast node .dict = some kextPlist) :
    searchEntries identifier (plistDictChildren kextPlist) =
      verdictOf (decisive identifier (identifierValues node)) := by
  rw [searchEntries_eq, identifierValues, cast]

theorem listed_zero_iff {node : XmlNode} {rest : List XmlNode} :
    Listed identifier (node :: rest) 0 ↔
      decisive identifier (identifierValues node) = some (some identifier) := by
  simp [Listed]

theorem listed_succ_iff {node : XmlNode} {rest : List XmlNode} {index : Nat} :
    Listed identifier (node :: rest) (index + 1) ↔
      decisive identifier (identifierValues node) = none ∧ Listed identifier rest index := by
  constructor
  · rintro ⟨⟨found, here, named⟩, passed⟩
    refine ⟨passed 0 (Nat.succ_pos index) node rfl, ⟨found, here, named⟩, ?_⟩
    intro earlier bound other present
    exact passed (earlier + 1) (by omega) other present
  · rintro ⟨first, ⟨found, here, named⟩, passed⟩
    refine ⟨⟨found, here, named⟩, ?_⟩
    intro earlier bound other present
    cases earlier with
    | zero =>
      cases present
      exact first
    | succ earlier => exact passed earlier (by omega) other present

def withoutKext (ctx : PrelinkedContext) (ref : KextRef) (index : Nat) : PrelinkedContext :=
  { ({ ctx with prelinkedKexts := ctx.prelinkedKexts.erase ref }.free ref) with
    kextList := ctx.kextList.eraseIdx index }

variable {ctx : PrelinkedContext}

variable {node : XmlNode} {rest : List XmlNode} {start : Nat}

theorem excludeFrom_passed (undecided : decisive identifier (identifierValues node) = none) :
    excludeFrom ctx identifier (node :: rest) start =
      excludeFrom ctx identifier rest (start + 1) := by
  rw [excludeFrom]
  cases cast : plistNodeCast node .dict with
  | none => rfl
  | some kextPlist => simp only [searchNode_eq cast, undecided, verdictOf]

theorem excludeFrom_decided (decided : decisive identifier (identifierValues node) = some value) :
    excludeFrom ctx identifier (node :: rest) start =
      match value.bind fun _ => cachedKext ctx identifier with
      | none => (.notFound, ctx)
      | some ref => (.success, withoutKext ctx ref start) := by
  rw [excludeFrom]
  -- Only a dict gives values.
  cases cast : plistNodeCast node .dict with
  | none =>
    rw [identifierValues, cast] at decided
    cases decided
  | some kextPlist =>
    simp only [searchNode_eq cast, decided]
    cases value with
    | none => rfl
    | some text =>
      simp only [verdictOf, internalDropCachedPrelinkedKext, Option.bind_some]
      cases cachedKext ctx identifier with
      | none => rfl
      | some ref => rfl

theorem listed_of_decided {index : Nat}
    (decided : decisive identifier (identifierValues node) = some value)
    (listed : Listed identifier (node :: rest) index) : value = some identifier := by
  cases index with
  | zero =>
    rw [listed_zero_iff, decided] at listed
    exact Option.some.inj listed
  | succ index =>
    rw [listed_succ_iff, decided] at listed
    cases listed.1

theorem excludeFrom_cases (nodes : List XmlNode) (start : Nat) :
    (∃ index ref, Listed identifier nodes index ∧ cachedKext ctx identifier = some ref ∧
      excludeFrom ctx identifier nodes start = (.success, withoutKext ctx ref (start + index))) ∨
    (¬((∃ index, Listed identifier nodes index) ∧ (cachedKext ctx identifier).isSome) ∧
      excludeFrom ctx identifier nodes start = (.notFound, ctx)) := by
  induction nodes generalizing start with
  | nil =>
    right
    refine ⟨?_, rfl⟩
    rintro ⟨⟨index, ⟨node, here, _⟩, _⟩, _⟩
    cases here
  | cons node rest ih =>
    cases decided : decisive identifier (identifierValues node) with
    | none =>
      rw [excludeFrom_passed decided]
      rcases ih (start + 1) with ⟨index, ref, listed, cached, ran⟩ | ⟨missing, ran⟩
      · left
        refine ⟨index + 1, ref, listed_succ_iff.mpr ⟨decided, listed⟩, cached, ?_⟩
        rw [ran, add_right_comm start 1 index, add_assoc]
      · right
        refine ⟨?_, ran⟩
        rintro ⟨⟨index, listed⟩, cached⟩
        cases index with
        | zero =>
          rw [listed_zero_iff, decided] at listed
          cases listed
        | succ index => exact missing ⟨⟨index, (listed_succ_iff.mp listed).2⟩, cached⟩
    | some value =>
      rw [excludeFrom_decided decided]
      cases value with
      | none =>
        right
        refine ⟨?_, rfl⟩
        rintro ⟨⟨index, listed⟩, _⟩
        cases listed_of_decided decided listed
      | some text =>
        cases decisive_named decided
        rw [Option.bind_some]
        cases cached : cachedKext ctx identifier with
        | none =>
          right
          refine ⟨?_, rfl⟩
          rintro ⟨_, some⟩
          cases some
        | some ref =>
          left
          exact ⟨0, ref, listed_zero_iff.mpr decided, rfl, rfl⟩

end Entries

section Erasure
variable {buffer : Bytes} {offset size index : Nat}

theorem overlay_zeros (buffer : Bytes) (offset size index : Nat) :
    (overlay buffer offset (replicate size 0))[index]? =
      if offset ≤ index ∧ index < offset + size then buffer[index]?.map fun _ => 0
      else buffer[index]? := by
  induction size generalizing buffer offset with
  | zero =>
    rw [replicate_zero, overlay, if_neg]
    omega
  | succ size ih =>
    rw [replicate_succ, overlay, ih, getElem?_set]
    by_cases first : offset = index
    · subst first
      have here : offset ≤ offset ∧ offset < offset + (size + 1) := by omega
      have behind : ¬(offset + 1 ≤ offset ∧ offset < offset + 1 + size) := by omega
      rw [if_neg behind, if_pos rfl, if_pos here]
      by_cases inside : offset < buffer.length
      · rw [if_pos inside, getElem?_eq_getElem inside]
        rfl
      · rw [if_neg inside, getElem?_eq_none (Nat.le_of_not_lt inside)]
        rfl
    · rw [if_neg first]
      by_cases behind : offset + 1 ≤ index ∧ index < offset + 1 + size
      · rw [if_pos behind, if_pos (by omega)]
      · rw [if_neg behind, if_neg (by omega)]

def ZeroIn (buffer : Bytes) (offset size : Nat) : Prop :=
  ∀ index byte, offset ≤ index → index < offset + size → buffer[index]? = some byte → byte = 0

theorem overlay_zeros_eq_iff :
    overlay buffer offset (replicate size 0) = buffer ↔ ZeroIn buffer offset size := by
  constructor
  · intro same index byte lower upper here
    have read := overlay_zeros buffer offset size index
    rw [same, if_pos ⟨lower, upper⟩, here] at read
    exact Option.some.inj read
  · intro zero
    apply ext_getElem?
    intro index
    rw [overlay_zeros]
    split
    · rename_i inside
      cases here : buffer[index]? with
      | none => rfl
      | some byte =>
        cases zero index byte inside.1 inside.2 here
        rfl
    · rfl

end Erasure

section Outcome
variable (file : KextFile) (identifier : Bytes) (ctx : PrelinkedContext)

def Own (place : Nat) : Prop :=
  file.fileOffset + file.headerOffset ≤ place ∧
    place < file.fileOffset + file.headerOffset + file.innerSize

/-- The entry with the identifier and its cached kext are gone, and the others are left in
their order. -/
def Removed (after : PrelinkedContext) : Prop :=
  ∃ index ref, Listed identifier ctx.kextList index ∧
    cachedKext ctx identifier = some ref ∧
    after.kextList = ctx.kextList.eraseIdx index ∧
    after.prelinkedKexts = ctx.prelinkedKexts.erase ref ∧
    after.heap = ctx.heap.set ref none

/-- Zeros are written over bytes of the kext only; a success removes its entries, and a
failure leaves everything as it was. -/
structure Excludes (result : EfiStatus × PrelinkedContext) : Prop where
  erased : ∀ range ∈ result.2.written.drop ctx.written.length,
    ∀ place, range.1 ≤ place → place < range.1 + range.2 → Own file place
  zeros : ∀ place, result.2.collection.prelinked[place]? ≠ ctx.collection.prelinked[place]? →
    Own file place ∧ result.2.collection.prelinked[place]? = some 0
  removed : result.1 = .success → Removed identifier ctx result.2
  unchanged : result.1 ≠ .success →
    result.2.collection.prelinked = ctx.collection.prelinked ∧
      result.2.kextList = ctx.kextList ∧ result.2.prelinkedKexts = ctx.prelinkedKexts ∧
      result.2.heap = ctx.heap

def Removable : Prop :=
  (∃ index, Listed identifier ctx.kextList index) ∧ (cachedKext ctx identifier).isSome

variable {file identifier ctx} {window : Window}

theorem erase_excludes {status : EfiStatus} {after : PrelinkedContext}
    (own : ∀ place, window.offset ≤ place → place < window.offset + window.maxSize → Own file place)
    (written : after.written = ctx.written ++ [(window.offset, window.maxSize)])
    (image : after.collection.prelinked =
      overlay ctx.collection.prelinked window.offset (replicate window.maxSize 0))
    (removed : status = .success → Removed identifier ctx after)
    (unchanged : status ≠ .success → after.collection.prelinked = ctx.collection.prelinked ∧
      after.kextList = ctx.kextList ∧ after.prelinkedKexts = ctx.prelinkedKexts ∧
      after.heap = ctx.heap) :
    Excludes file identifier ctx (status, after) where
  erased := by
    intro range member
    rw [written, drop_left, mem_singleton] at member
    cases member
    exact own
  zeros := by
    intro place changed
    dsimp only at changed ⊢
    rw [image, overlay_zeros] at changed ⊢
    split at changed
    · rename_i inside
      refine ⟨own place inside.1 inside.2, ?_⟩
      rw [if_pos inside]
      cases here : ctx.collection.prelinked[place]? with
      | none =>
        rw [here] at changed
        exact absurd rfl changed
      | some byte => rfl
    · exact absurd rfl changed
  removed := removed
  unchanged := unchanged

theorem Excludes.own {result : EfiStatus × PrelinkedContext}
    (excludes : Excludes file identifier ctx result)
    (written : result.2.written = ctx.written ++ [(window.offset, window.maxSize)]) :
    ∀ place, window.offset ≤ place → place < window.offset + window.maxSize → Own file place := by
  apply excludes.erased (window.offset, window.maxSize)
  rw [written, drop_left]
  exact mem_singleton_self _

/-- The size that is erased comes from the segments in memory, and the erasure is not taken
back where the search fails. -/
theorem patcherExcludePrelinkedKext_exact (file : KextFile) (uintn : Nat) (identifier : Bytes)
    (ctx : PrelinkedContext) :
    Excludes file identifier ctx (patcherExcludePrelinkedKext file uintn identifier ctx) ↔
      ∀ window ∈ erasedWindow file uintn,
        (∀ place, window.offset ≤ place → place < window.offset + window.maxSize →
          Own file place) ∧
        (Removable identifier ctx ∨
          ZeroIn ctx.collection.prelinked window.offset window.maxSize) := by
  rw [patcherExcludePrelinkedKext]
  cases found : erasedWindow file uintn with
  | none =>
    constructor
    · intro _ window member
      cases member
    · intro _
      constructor
      · simp
      · exact fun place changed => absurd rfl changed
      · intro success
        cases success
      · exact fun _ => ⟨rfl, rfl, rfl, rfl⟩
  | some window =>
    simp only [Option.mem_some_iff, forall_eq']
    -- The erasure comes first, so it is in what the search returns in either case.
    have written : (ctx.write window.offset (replicate window.maxSize 0)).written =
        ctx.written ++ [(window.offset, window.maxSize)] := by
      rw [PrelinkedContext.write, length_replicate]
    rw [show (ctx.write window.offset (replicate window.maxSize 0)).kextList =
      ctx.kextList from rfl]
    rcases @excludeFrom_cases identifier
        (ctx.write window.offset (replicate window.maxSize 0))
        ctx.kextList 0 with ⟨index, ref, listed, cached, ran⟩ | ⟨missing, ran⟩
    · have present : cachedKext ctx identifier = some ref := cached
      rw [ran]
      constructor
      · intro excludes
        exact ⟨excludes.own written, Or.inl ⟨⟨index, listed⟩, by rw [present]; rfl⟩⟩
      · rintro ⟨own, _⟩
        rw [zero_add]
        refine erase_excludes own ?_ rfl ?_ ?_
        · exact written
        · intro _
          exact ⟨index, ref, listed, present, rfl, rfl, rfl⟩
        · intro failed
          exact absurd rfl failed
    · rw [ran]
      constructor
      · intro excludes
        have image := (excludes.unchanged (by simp)).1
        exact ⟨excludes.own written, Or.inr (overlay_zeros_eq_iff.mp image)⟩
      · rintro ⟨own, removable | zero⟩
        · exact absurd removable missing
        · apply erase_excludes own written rfl
          · intro success
            cases success
          · intro _
            exact ⟨overlay_zeros_eq_iff.mpr zero, rfl, rfl, rfl⟩

def shortFile : KextFile where
  lookup := {
    arch := .mach64
    fileSize := 4
    segments := [⟨0x1000, 4, 0, 4, []⟩]
    fileSizeFits := by decide
    segmentsInside := by decide
    addressesFit := by decide
    sectionsFit := by decide }
  fileOffset := 0
  headerOffset := 0
  innerSize := 4
  virtualBase := 0x1000
  segmentNames := fun _ => []
  sectionNames := fun _ _ => []
  innerFits := by decide

def unlistedContext : PrelinkedContext where
  collection := {
    prelinked := [1, 2, 3, 4]
    kextsFileOffset := 0
    kextsVmAddress := 0
    kextsFixupChainsOffset := 0
    kextsFixupChains := ⟨0, 0, 0, 0, 0, 0, []⟩ }
  written := []
  prelinkedSize := 4
  prelinkedAllocSize := 4
  prelinkedLastAddress := 0x1004
  prelinkedLastLoadAddress := 0x1004
  is32Bit := false
  isKernelCollection := false
  baseSegment := ⟨0, 72, 0x1000, 4, 0, 4⟩
  textSegment := ⟨0, 72, 0x1000, 4, 0, 4⟩
  textSectionSize := 4
  prelinkedMachContext := ⟨0, 4, 0, 4⟩
  innerMachContext := ⟨0, 4, 0, 4⟩
  kextList := []
  heap := []
  prelinkedKexts := []
  injectedKexts := []
  pooledBuffers := []
  linkSteps := 0

theorem patcherExcludePrelinkedKext_exact_unlisted :
    (patcherExcludePrelinkedKext shortFile u64 (ascii "kext") unlistedContext).1 = .notFound ∧
    (patcherExcludePrelinkedKext shortFile u64 (ascii "kext") unlistedContext).2.collection.prelinked =
      [0, 0, 0, 0] ∧
    ¬Excludes shortFile (ascii "kext") unlistedContext
      (patcherExcludePrelinkedKext shortFile u64 (ascii "kext") unlistedContext) := by
  refine ⟨by decide, by decide, ?_⟩
  intro excludes
  exact absurd (excludes.unchanged (by decide)).1 (by decide)

end Outcome

end OpenCore.PrelinkedExclude
