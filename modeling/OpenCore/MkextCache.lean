import OpenCore.MkextBundles

/-!
The cache of an mkext context over lookups, injections and exclusions. An entry stands for a
kext of the mkext: it has the identifier its plist names, and the place of its executable.
-/

namespace OpenCore.MkextCache

open Base ByteBuffer ByteSlices XmlParse XmlExport XmlStrings XmlRoundTrip PlistTree MkextFormat
  MkextState MkextInject MkextDecompress MkextPlacement MkextBundles List
open Plist (ascii ascii_append ascii_ofList)

def plistIdentifier (plist : Bytes) : Option Bytes :=
  (infoDict plist).bind fun dict => dictIdentifier (Tree.children dict)

structure InSlot (ctx : MkextContext) (kext : MkextKext) (index : Nat) : Prop where
  listed : index < ctx.numKexts
  plist : (plistFile ctx.mkext index).offset + (plistFile ctx.mkext index).fullSize ≤
    ctx.mkextSize
  identifier : plistIdentifier (slice ctx.mkext (plistFile ctx.mkext index).offset
    (plistFile ctx.mkext index).fullSize) = some kext.identifier
  executable :
    kext.binaryOffset = (binaryFile ctx.mkext index).offset ∧
        kext.binarySize = (binaryFile ctx.mkext index).fullSize ∧
        kext.binaryOffset + kext.binarySize ≤ ctx.mkextSize ∨
      kext.binaryOffset = 0 ∧ kext.binarySize = 0 ∧ (binaryFile ctx.mkext index).fullSize = 0

structure InBundle (ctx : MkextContext) (kext : MkextKext) (info : MkextInfo)
    (bundle : Tree) (offset : Nat) : Prop where
  present : ctx.info = some info
  listed : bundle ∈ Tree.children info.bundles
  identifier : ∃ children, Shows bundle children ∧
    statedFields children = some (some kext.identifier, offset)
  executable :
    0 < offset ∧ word ctx.mkext offset = 0 ∧ kext.binaryOffset = offset + v2FileEntrySize ∧
        kext.binarySize = word ctx.mkext (offset + 4) ∧
        kext.binaryOffset + kext.binarySize ≤ ctx.mkext.length ∨
      offset = 0 ∧ kext.binaryOffset = 0 ∧ kext.binarySize = 0

/-- The entry has the identifier of a kext of the mkext and the place of its
executable, or no place when the kext has none. -/
def Describes (ctx : MkextContext) (kext : MkextKext) : Prop :=
  ctx.mkextVersion = mkextVersionV1 ∧ (∃ index, InSlot ctx kext index) ∨
    ctx.mkextVersion = mkextVersionV2 ∧ ∃ info bundle offset, InBundle ctx kext info bundle offset

structure Consistent (ctx : MkextContext) : Prop where
  described : ∀ kext ∈ ctx.cachedKexts, Describes ctx kext
  distinct : (ctx.cachedKexts.map MkextKext.identifier).Nodup

inductive Operation where
  | lookup (identifier : Bytes) (inserts : Bool)
  | inject (injection : Injection)
  | exclude (identifier : Bytes) (uninitialised : Option Bytes × Nat)

section Runs

variable (env : KextExternals)

def perform (ctx : MkextContext) : Operation → MkextContext
  | .lookup identifier inserts => (internalCachedMkextKext env ctx identifier inserts).2
  | .inject injection => (mkextInjectKext env ctx injection).2
  | .exclude identifier uninitialised =>
    (patcherExcludeMkextKext env ctx identifier uninitialised).2

/-- What the operation is to do with the cache: an injected kext is entered under
the identifier of its plist, and dropping removes just the entry with the
identifier. -/
def Exact (ctx : MkextContext) : Operation → Prop
  | .lookup _ _ => True
  | .inject injection =>
    (mkextInjectKext env ctx injection).1 = .success →
      ∀ kext ∈ (mkextInjectKext env ctx injection).2.cachedKexts,
        kext ∈ ctx.cachedKexts ∨ plistIdentifier injection.infoPlist = some kext.identifier
  | .exclude identifier uninitialised =>
    ctx.mkextVersion = mkextVersionV2 →
      (patcherExcludeMkextKext env ctx identifier uninitialised).1 = .success →
        (patcherExcludeMkextKext env ctx identifier uninitialised).2.cachedKexts =
          ctx.cachedKexts.filter fun kext => kext.identifier ≠ identifier

/-- The cache is consistent at every state of the run, and every operation exact. -/
def Behaves : MkextContext → List Operation → Prop
  | ctx, [] => Consistent ctx
  | ctx, operation :: rest =>
    Consistent ctx ∧ Exact env ctx operation ∧
      Behaves (perform env ctx operation) rest

end Runs

section Drop

variable {identifier : Bytes}

variable {kexts : List MkextKext}

theorem dropCachedKext_eq_filter (distinct : (kexts.map MkextKext.identifier).Nodup)
    (cached : identifier ∈ kexts.map MkextKext.identifier) :
    dropCachedKext identifier kexts = kexts.filter fun kext => kext.identifier ≠ identifier := by
  induction kexts with
  | nil => rfl
  | cons kext rest ih =>
    rw [map_cons, nodup_cons] at distinct
    cases rest with
    | nil =>
      have same : identifier = kext.identifier := by simpa using cached
      simp [dropCachedKext, same]
    | cons next rest =>
      rw [dropCachedKext]
      split
      next same =>
        have others : ∀ other ∈ next :: rest, other.identifier ≠ identifier := by
          intro other member equal
          apply distinct.1
          rw [same, ← equal]
          exact mem_map_of_mem member
        rw [filter_cons_of_neg (by simpa using same), filter_eq_self.mpr (by simpa using others)]
      next differs =>
        have deeper : identifier ∈ (next :: rest).map MkextKext.identifier := by
          rcases mem_cons.mp cached with first | later
          · exact absurd first.symm differs
          · exact later
        rw [ih distinct.2 deeper]
        exact (filter_cons_of_pos (by simpa using differs)).symm

/-- The walk removes exactly the entry with the identifier when there is one, or
when the cache is empty. -/
theorem dropCachedKext_exact_iff (distinct : (kexts.map MkextKext.identifier).Nodup) :
    (dropCachedKext identifier kexts = kexts.filter fun kext => kext.identifier ≠ identifier) ↔
      kexts = [] ∨ identifier ∈ kexts.map MkextKext.identifier := by
  constructor
  · intro exact'
    by_contra missing
    rw [not_or] at missing
    have all : kexts.filter (fun kext => kext.identifier ≠ identifier) = kexts := by
      apply filter_eq_self.mpr
      intro kext member
      simpa using fun same : kext.identifier = identifier =>
        missing.2 (mem_map.mpr ⟨kext, member, same⟩)
    have shorter : ∀ kexts : List MkextKext, kexts ≠ [] →
        (dropCachedKext identifier kexts).length < kexts.length := by
      intro kexts
      induction kexts with
      | nil => exact fun empty => absurd rfl empty
      | cons kext rest ih =>
        intro _
        cases rest with
        | nil => exact Nat.one_pos
        | cons next rest =>
          rw [dropCachedKext]
          split
          · exact Nat.lt_succ_self _
          · exact Nat.succ_lt_succ (ih (cons_ne_nil _ _))
    have less := shorter kexts missing.1
    rw [exact', all] at less
    exact lt_irrefl _ less
  · rintro (rfl | cached)
    · rfl
    · exact dropCachedKext_eq_filter distinct cached

end Drop

section Lookup

variable {env : KextExternals} {ctx : MkextContext} {identifier : Bytes}

theorem inBounds {offset size : Nat} (within : beyondMkext ctx offset size = false) :
    offset + size ≤ ctx.mkextSize := by
  unfold beyondMkext at within
  split at within
  · cases within
  next stop added =>
    obtain ⟨rfl, -⟩ := baseOverflowAdd_eq_some added
    simpa using within

structure Examined (ctx : MkextContext) (identifier : Bytes) (index : Nat)
    (offsets : KextOffsets) : Prop where
  listed : index < ctx.numKexts
  fields : offsets = ⟨(plistFile ctx.mkext index).offset,
    (plistFile ctx.mkext index).fullSize, (binaryFile ctx.mkext index).offset,
    (binaryFile ctx.mkext index).fullSize⟩
  plist : offsets.plistOffset + offsets.plistSize ≤ ctx.mkextSize
  binary : offsets.binOffset + offsets.binSize ≤ ctx.mkextSize
  named : plistIdentifier (slice ctx.mkext offsets.plistOffset offsets.plistSize) =
    some identifier

-- The search may go on behind a match without a binary, so what it returns is the
-- kext it examined last.
theorem searchV1Kexts_examined {count index : Nat} {isKextMatch : Bool} {last : KextOffsets}
    {found : Nat × KextOffsets} (all : index + count = ctx.numKexts) (before : isKextMatch = true →
      ∃ earlier, Examined ctx identifier earlier last ∧ last.binSize = 0)
    (search : searchV1Kexts env ctx identifier count index isKextMatch last = .ok found) :
    ∃ place, Examined ctx identifier place found.2 ∧ (0 < found.2.binSize → found.1 = place) := by
  induction count generalizing index isKextMatch last with
  | zero =>
    rw [searchV1Kexts] at search
    split at search
    next matched =>
      cases search
      obtain ⟨earlier, examined, empty⟩ := before matched
      exact ⟨earlier, examined, fun some => absurd empty some.ne'⟩
    next => cases search
  | succ count ih =>
    have rest : index + 1 + count = ctx.numKexts := by omega
    rw [searchV1Kexts] at search
    simp only at search
    split at search
    next => exact ih rest before search
    next =>
      split at search
      next => cases search
      next within =>
        simp only [not_or, Bool.not_eq_true] at within
        split at search
        next => cases search
        next =>
          split at search
          next => cases search
          next dict parsed =>
            split at search
            next named =>
              have examined : Examined ctx identifier index ⟨_, _, _, _⟩ :=
                ⟨by omega, rfl, inBounds within.1, inBounds within.2,
                  by rw [plistIdentifier, parsed]; exact named⟩
              split at search
              next =>
                cases search
                exact ⟨index, examined, fun _ => rfl⟩
              next bare =>
                refine ih rest (fun _ => ⟨index, examined, ?_⟩) search
                simp only
                omega
            next => exact ih rest (fun matched => by cases matched) search

theorem searchBundles_found {bundles : List Tree} {offset : Nat}
    (search : searchBundles ctx identifier bundles = some offset) :
    0 < offset ∧ ∃ bundle ∈ bundles,
      statedFields (Tree.children bundle) = some (some identifier, offset) := by
  induction bundles with
  | nil => cases search
  | cons bundle rest ih =>
    rw [searchBundles] at search
    split at search
    next => cases search
    next =>
      split at search
      next => cases search
      next found stated fields =>
        split at search
        next hit =>
          cases search
          exact ⟨hit.2.1, bundle, mem_cons_self, by rw [statedFields, fields, hit.1]⟩
        next =>
          obtain ⟨positive, bundle', member, fields'⟩ := ih search
          exact ⟨positive, bundle', mem_cons_of_mem _ member, fields'⟩

theorem searchMkext_describes {binOffset binSize : Nat} (room : ctx.mkextSize ≤ ctx.mkext.length)
    (search : searchMkext env ctx identifier = some (binOffset, binSize)) :
    Describes ctx ⟨identifier, binOffset, binSize⟩ := by
  rw [searchMkext] at search
  split at search
  next version =>
    split at search
    next => cases search
    next index offsets found =>
      cases search
      obtain ⟨place, examined, -⟩ :=
        searchV1Kexts_examined (zero_add _) (fun unmatched => by cases unmatched) found
      have fields := examined.fields
      have plist := examined.plist
      have named := examined.named
      rw [fields] at plist named
      exact .inl ⟨version, place, examined.listed, plist, named,
        .inl ⟨congrArg KextOffsets.binOffset fields, congrArg KextOffsets.binSize fields,
          examined.binary⟩⟩
  next =>
    split at search
    next version =>
      obtain ⟨offset, searched, rest⟩ := Option.bind_eq_some_iff.mp search
      obtain ⟨info, present, found⟩ := Option.bind_eq_some_iff.mp searched
      obtain ⟨positive, bundle, member, fields⟩ := searchBundles_found found
      split at rest
      next => cases rest
      next plain =>
        simp only at rest
        split at rest
        next => cases rest
        next within =>
          cases rest
          refine .inr ⟨version, info, bundle, offset, present, member,
            ⟨_, .inl rfl, fields⟩, .inl ⟨positive, not_not.mp plain, rfl, rfl, ?_⟩⟩
          exact (inBounds (Bool.eq_false_of_not_eq_true within)).trans room
    next => cases search

end Lookup

structure Valid (ctx : MkextContext) : Prop where
  room : ctx.mkextSize ≤ ctx.mkext.length
  narrow : ctx.mkext.length < u32
  slots : ctx.mkextVersion = mkextVersionV1 →
    v1KextOffset ctx.numMaxKexts ≤ ctx.mkextSize ∧ ctx.numKexts ≤ ctx.numMaxKexts
  info : ctx.mkextVersion = mkextVersionV2 → ctx.mkextInfoOffset ≤ ctx.mkext.length

section Slots

variable {ctx after : MkextContext} {kext : MkextKext} {index : Nat}

theorem slotFiles_same (slot : SameAt ctx.mkext after.mkext (v1KextOffset index) v1KextSize) :
    plistFile after.mkext index = plistFile ctx.mkext index ∧
      binaryFile after.mkext index = binaryFile ctx.mkext index := by
  have first := slot.kextFile (zero_add v1FileSize ▸ (by decide : v1FileSize ≤ v1KextSize))
  exact ⟨first, slot.kextFile (by decide)⟩

theorem InSlot.frame (described : InSlot ctx kext index)
    (counted : ctx.numKexts ≤ after.numKexts) (grown : ctx.mkextSize ≤ after.mkextSize)
    (slot : SameAt ctx.mkext after.mkext (v1KextOffset index) v1KextSize)
    (plist : SameAt ctx.mkext after.mkext (plistFile ctx.mkext index).offset
      (plistFile ctx.mkext index).fullSize) : InSlot after kext index := by
  obtain ⟨plistSame, binarySame⟩ := slotFiles_same slot
  refine ⟨described.listed.trans_le counted, ?_, ?_, ?_⟩
  · rw [plistSame]
    exact described.plist.trans grown
  · rw [plistSame, plist]
    exact described.identifier
  · rw [binarySame]
    exact described.executable.imp (fun stored => ⟨stored.1, stored.2.1, stored.2.2.trans grown⟩) id

end Slots

theorem InBundle.frame {ctx after : MkextContext} {kext : MkextKext} {info info' : MkextInfo}
    {bundle : Tree} {offset : Nat} (described : InBundle ctx kext info bundle offset)
    (present : after.info = some info') (listed : bundle ∈ Tree.children info'.bundles)
    (length : after.mkext.length = ctx.mkext.length) (entry : kext.binaryOffset ≠ 0 →
      SameAt ctx.mkext after.mkext (kext.binaryOffset - v2FileEntrySize) v2FileEntrySize) :
    InBundle after kext info' bundle offset := by
  refine ⟨present, listed, described.identifier, ?_⟩
  rcases described.executable with ⟨positive, plain, start, size, inside⟩ | absent
  · have same := entry (by rw [start, v2FileEntrySize]; omega)
    rw [start, Nat.add_sub_cancel] at same
    have first := same.word (by decide : 0 + 4 ≤ v2FileEntrySize)
    have second := same.word (by decide : 4 + 4 ≤ v2FileEntrySize)
    rw [add_zero] at first
    exact .inl ⟨positive, first.trans plain, start, size.trans second.symm, length ▸ inside⟩
  · exact .inr absent

theorem Describes.entered {ctx : MkextContext} {kext : MkextKext}
    (describes : Describes ctx kext) (kexts : List MkextKext) :
    Describes { ctx with cachedKexts := kexts } kext := by
  rcases describes with ⟨version, index, slot⟩ | ⟨version, info, bundle, offset, described⟩
  · exact .inl ⟨version, index, slot.frame (le_refl _) (le_refl _) rfl rfl⟩
  · exact .inr ⟨version, info, bundle, offset,
      described.frame described.present described.listed rfl fun _ => rfl⟩

section Conditions

/-- What has to hold when a kext is entered: the freed storage still holds the
identifier of its plist, which is not cached yet, and what is written for the kext
is apart from what the cached ones are read from. -/
structure InjectsSafely (ctx : MkextContext) (injection : Injection) : Prop where
  stored : plistIdentifier injection.infoPlist = some injection.freed
  fresh : injection.freed ∉ ctx.cachedKexts.map MkextKext.identifier
  /-- Version 1: the slot of a kext without executable has none, and no plist starts
  before the end of the slot. -/
  slot : ctx.mkextVersion = mkextVersionV1 →
    (injection.executable = none → (binaryFile ctx.mkext ctx.numKexts).fullSize = 0) ∧
      ∀ index < ctx.numKexts, (plistFile ctx.mkext index).fullSize = 0 ∨
        v1KextOffset (ctx.numKexts + 1) ≤ (plistFile ctx.mkext index).offset
  /-- Version 2: the plist names its identifier once and no executable, its path is
  shorter than 1 GB, and the cached executables start before the plist of the mkext. -/
  bundle : ctx.mkextVersion = mkextVersionV2 →
    (∀ dict, infoDict injection.infoPlist = some dict →
      statedFields (Tree.children dict) = some (some injection.freed, 0)) ∧
      injection.bundlePath.length < 0x40000000 ∧ 0 ∉ injection.bundlePath ∧
      0 < ctx.mkextInfoOffset ∧
      ∀ kext ∈ ctx.cachedKexts, kext.binaryOffset ≤ ctx.mkextInfoOffset

def KextApart (ctx : MkextContext) (index offset size : Nat) : Prop :=
  Apart (v1KextOffset index) v1KextSize offset size ∧
    Apart (plistFile ctx.mkext index).offset (plistFile ctx.mkext index).fullSize offset size

/-- What has to hold when a kext is excluded. Version 1 never drops an entry and
version 2 drops one in any case; what is zeroed is to be apart from what the other
cached kexts are read from. -/
structure ExcludesSafely (env : KextExternals) (ctx : MkextContext) (identifier : Bytes)
    (uninitialised : Option Bytes × Nat) : Prop where
  uncached : ctx.mkextVersion = mkextVersionV1 →
    identifier ∉ ctx.cachedKexts.map MkextKext.identifier
  slots : ∀ index offsets,
    internalGetMkextV1KextOffsets env ctx identifier = .ok (index, offsets) →
      0 < offsets.binSize ∧ ∀ other < ctx.numKexts, other ≠ index →
        KextApart ctx other offsets.plistOffset offsets.plistSize ∧
          KextApart ctx other offsets.binOffset offsets.binSize ∧
          KextApart ctx other (v1KextOffset index) v1KextSize
  cached : ctx.mkextVersion = mkextVersionV2 →
    ctx.cachedKexts = [] ∨ identifier ∈ ctx.cachedKexts.map MkextKext.identifier
  bundle : ∀ info index binOffset, ctx.info = some info →
    searchExcluded ctx identifier (Tree.children info.bundles) 0 uninitialised =
      some (index, binOffset) →
    (∀ bundle, (Tree.children info.bundles)[index]? = some bundle →
      ∃ offset, statedFields (Tree.children bundle) = some (some identifier, offset)) ∧
      ∀ kext ∈ ctx.cachedKexts, kext.identifier ≠ identifier → kext.binaryOffset ≠ 0 →
        Apart (kext.binaryOffset - v2FileEntrySize) v2FileEntrySize binOffset
          (word ctx.mkext (binOffset + 4) + v2FileEntrySize)

def Careful (env : KextExternals) (ctx : MkextContext) : Operation → Prop
  | .lookup _ _ => True
  | .inject injection =>
    (mkextInjectKext env ctx injection).1 = .success → InjectsSafely ctx injection
  | .exclude identifier uninitialised =>
    (patcherExcludeMkextKext env ctx identifier uninitialised).1 = .success →
      ExcludesSafely env ctx identifier uninitialised

def AllCareful (env : KextExternals) : MkextContext → List Operation → Prop
  | _, [] => True
  | ctx, operation :: rest =>
    Careful env ctx operation ∧
      AllCareful env (perform env ctx operation) rest

end Conditions

section Lookups

variable {env : KextExternals} {ctx : MkextContext} {identifier : Bytes} {inserts : Bool}

/-- A lookup leaves everything but the cache, to which it may append the kext it
found under an identifier that was not there. -/
theorem lookup_cases :
    (internalCachedMkextKext env ctx identifier inserts).2 = ctx ∨
      ∃ binOffset binSize, searchMkext env ctx identifier = some (binOffset, binSize) ∧
        identifier ∉ ctx.cachedKexts.map MkextKext.identifier ∧
        (internalCachedMkextKext env ctx identifier inserts).1 ≠ none ∧
        (internalCachedMkextKext env ctx identifier inserts).2 =
          insertCachedMkextKext ctx identifier binOffset binSize := by
  unfold internalCachedMkextKext
  split
  next => exact .inl rfl
  next missing =>
    split
    next => exact .inl rfl
    next binOffset binSize found =>
      cases inserts with
      | false => exact .inl rfl
      | true =>
        refine .inr ⟨binOffset, binSize, found, ?_, nofun, rfl⟩
        intro member
        obtain ⟨kext, inside, same⟩ := mem_map.mp member
        exact absurd (by simpa using same) (find?_eq_none.mp missing kext inside)

theorem lookup_consistent (valid : Valid ctx) (consistent : Consistent ctx) :
    Consistent (internalCachedMkextKext env ctx identifier inserts).2 := by
  rcases @lookup_cases env ctx identifier inserts with same | ⟨binOffset, binSize, found, fresh, -, entered⟩
  · rw [same]
    exact consistent
  · rw [entered]
    constructor
    · intro kext member
      rcases mem_append.mp member with earlier | new
      · exact (consistent.described kext earlier).entered _
      · rw [mem_singleton.mp new]
        exact (searchMkext_describes valid.room found).entered _
    · simp only [insertCachedMkextKext, map_append, map_cons, map_nil]
      exact consistent.distinct.append (nodup_singleton _) (by simpa using fresh)

theorem lookup_valid (valid : Valid ctx) :
    Valid (internalCachedMkextKext env ctx identifier inserts).2 := by
  rcases @lookup_cases env ctx identifier inserts with same | ⟨_, _, -, -, -, entered⟩
  · rw [same]
    exact valid
  · rw [entered]
    exact ⟨valid.room, valid.narrow, valid.slots, valid.info⟩

end Lookups

section Injections

variable {env : KextExternals} {ctx : MkextContext} {injection : Injection}

structure Injected (env : KextExternals) (ctx : MkextContext) (injection : Injection)
    (document : XmlDocument) (dict : Tree) (identifier : Bytes) (placed : MkextContext)
    (binOffset binSize : Nat) : Prop where
  parsed : xmlDocumentParse injection.infoPlist false = some document
  opened : documentDict document.root.tree = some dict
  named : dictIdentifier (Tree.children dict) = some identifier
  placed : injectVersion env ctx injection document dict = .ok (placed, binOffset, binSize)

theorem injectAbsent_cases :
    (injectAbsent env ctx injection).2 = ctx ∨ ∃ document dict identifier placed binOffset binSize,
        Injected env ctx injection document dict identifier placed binOffset binSize ∧
        (injectAbsent env ctx injection).1 = .success ∧ (injectAbsent env ctx injection).2 =
          if injection.inserts then insertCachedMkextKext placed injection.freed binOffset binSize
          else placed := by
  unfold injectAbsent
  split
  next => exact .inl rfl
  next =>
    split
    next => exact .inl rfl
    next document parsed =>
      split
      next => exact .inl rfl
      next dict opened =>
        split
        next => exact .inl rfl
        next identifier named =>
          split
          next => exact .inl rfl
          next placed binOffset binSize injected =>
            refine .inr ⟨document, dict, identifier, placed, binOffset, binSize,
              ⟨parsed, opened, named, injected⟩, ?_⟩
            cases injection.inserts with
            | false => exact ⟨rfl, rfl⟩
            | true => exact ⟨rfl, rfl⟩

/-- A call that is not refused for a kext that is present starts from its own
context. -/
theorem mkextInjectKext_cases :
    (∃ identifier, (mkextInjectKext env ctx injection).1 ≠ .success ∧
      (mkextInjectKext env ctx injection).2 =
        (internalCachedMkextKext env ctx identifier injection.inserts).2) ∨
      mkextInjectKext env ctx injection = injectAbsent env ctx injection := by
  unfold mkextInjectKext
  split
  next => exact .inr rfl
  next identifier given =>
    split
    next kext found lookup =>
      refine .inl ⟨identifier, by simp, ?_⟩
      rw [lookup]
    next searched lookup =>
      rcases @lookup_cases env ctx identifier injection.inserts with same |
        ⟨_, _, -, -, found, -⟩
      · rw [lookup] at same
        simp only at same
        rw [same]
        exact .inr rfl
      · rw [lookup] at found
        exact absurd rfl found

end Injections

section PlacedV1

variable {ctx after : MkextContext} {injection : Injection} {plistEnd : Nat}
  {executable : Option (Nat × Bytes)} {binOffset binSize newSize : Nat}

theorem plistIdentifier_empty : plistIdentifier [] = none := rfl

theorem InSlot.nonempty {kext : MkextKext} {index : Nat} (described : InSlot ctx kext index) :
    (plistFile ctx.mkext index).fullSize ≠ 0 := by
  intro empty
  have named := described.identifier
  rw [empty, slice, take_zero, plistIdentifier_empty] at named
  cases named

section

variable (placed : PlacedV1 ctx after injection plistEnd executable binOffset binSize newSize)
  (table : TableInside ctx)
include placed table

theorem placedV1_describes_earlier
    (behind : ∀ index < ctx.numKexts, (plistFile ctx.mkext index).fullSize = 0 ∨
      v1KextOffset (ctx.numKexts + 1) ≤ (plistFile ctx.mkext index).offset)
    {kext : MkextKext} {index : Nat} (described : InSlot ctx kext index) :
    InSlot after kext index := by
  have slotEnd := (v1KextOffset_le described.listed).trans
    ((Nat.le_add_right _ _).trans (placed.slotInside table))
  obtain ⟨plist, ends⟩ := placed.ends
  apply described.frame
  · rw [placed.after]
    exact Nat.le_succ _
  · rw [placed.after]
    exact (Nat.le_add_right _ _).trans (plist.trans ends)
  · exact placed.same table slotEnd (.inl (v1KextOffset_le described.listed))
  · refine placed.same table described.plist (.inr ?_)
    exact (behind index described.listed).resolve_left described.nonempty

theorem placedV1_describes_new (narrow : ctx.mkext.length < u32)
    (named : plistIdentifier injection.infoPlist = some injection.freed)
    (empty : injection.executable = none → (binaryFile ctx.mkext ctx.numKexts).fullSize = 0) :
    InSlot after ⟨injection.freed, binOffset, binSize⟩ ctx.numKexts := by
  have fields := placed.plistFile table narrow
  have binary := placed.binaryFile table narrow
  obtain ⟨plist, ends⟩ := placed.ends
  have size : after.mkextSize = newSize := by rw [placed.after]; rfl
  refine ⟨?_, ?_, ?_, ?_⟩
  · rw [placed.after]
    exact Nat.lt_succ_self _
  · rw [fields, size]
    exact plist.trans ends
  · rw [fields, placed.plistBytes table]
    exact named
  · rcases placed.stored with ⟨absent, missing, offset, zero, -⟩ | ⟨bytes, present, -, offset, length, -, total⟩
    · rw [absent, storedFile] at binary
      rw [binary]
      exact .inr ⟨offset, zero, empty missing⟩
    · rw [present, storedFile] at binary
      rw [binary, size, offset, length]
      have grown := mkextAlign_ge bytes.length
      exact .inl ⟨rfl, rfl, by simp only; omega⟩

end

end PlacedV1

section PlacedV2

variable {ctx after : MkextContext} {info : MkextInfo} {injection : Injection}
  {document : XmlDocument} {dict : Tree} {binOffset binSize : Nat}

theorem bundles_appended (info : MkextInfo) (node : Tree) :
    Tree.children (appendBundle info node).bundles = Tree.children info.bundles ++ [node] := by
  rw [appendBundle, MkextInfo.withBundles]
  cases info.bundles with
  | mk name attributes content children => rfl

theorem placedV2_describes_earlier
    (placed : PlacedV2 ctx info injection document dict after binOffset binSize)
    {kext : MkextKext} {bundle : Tree} {offset : Nat}
    (described : InBundle ctx kext info bundle offset)
    (before : kext.binaryOffset ≤ ctx.mkextInfoOffset) :
    ∃ info', InBundle after kext info' bundle offset := by
  have kept : ∀ node, bundle ∈ Tree.children (appendBundle info node).bundles := by
    intro node
    rw [bundles_appended]
    exact mem_append_left _ described.listed
  cases placed with
  | plistOnly absent =>
    exact ⟨_, described.frame rfl (kept _) rfl fun _ => rfl⟩
  | executable binary given small inside =>
    refine ⟨_, described.frame rfl (kept _) (overlay_length _ _ _) fun present => ?_⟩
    have start : v2FileEntrySize ≤ kext.binaryOffset := by
      rcases described.executable with ⟨-, -, offset, -⟩ | ⟨-, absent, -⟩
      · rw [offset]
        exact Nat.le_add_left _ _
      · exact absurd absent present
    have grown := mkextAlign_ge binary.length
    refine sameAt_overlay ?_ (.inl (by omega))
    rw [fileEntry_length]
    omega

/-- The text of a plist with the keys for the kext stays printable in 32 bits. -/
theorem added_small (parsed : xmlDocumentParse injection.infoPlist false = some document)
    (opened : documentDict document.root.tree = some dict)
    (short : injection.bundlePath.length < 0x40000000) {added : List Tree}
    (addedEnded : AllEnded added) (addedSize : (listText added).length ≤ injection.bundlePath.length + 1024) :
    AllEnded (Tree.children dict ++ added) ∧
      Small (document.length + 1) (listText (Tree.children dict ++ added)).length := by
  obtain ⟨strings, length, limit, size⟩ := xmlDocumentParse_bounded parsed
  obtain ⟨only, -⟩ := documentDict_eq_some opened
  have max : xmlParserMaxSize = 33554432 := rfl
  have pool : xmlExportMinAllocationSize = 4096 := rfl
  -- The keys of the plist are part of the text of the document.
  have inner : AllEnded (Tree.children dict) ∧
      (listText (Tree.children dict)).length ≤ (text document.root.tree).length := by
    cases whole : document.root.tree with
    | mk name attributes content children =>
      rw [whole] at only strings
      rw [Tree.children] at only
      subst only
      cases dict with
      | mk name' attributes' content' children' =>
        refine ⟨strings.2.2.2.1.2.2.2, ?_⟩
        rw [Tree.children, text_length, writtenSize, listText_length, listWrittenSize, writtenSize]
        cases children' with
        | nil => simp [listWrittenSize]
        | cons child rest => simp; omega
  refine ⟨allEnded_append.mpr ⟨inner.1, addedEnded⟩, ?_⟩
  rw [XmlExport.Small, listText_append, length_append, u32_val]
  omega

theorem placedV2_describes_new
    (placed : PlacedV2 ctx info injection document dict after binOffset binSize)
    (parsed : xmlDocumentParse injection.infoPlist false = some document)
    (opened : documentDict document.root.tree = some dict)
    (narrow : ctx.mkext.length < u32) (positive : 0 < ctx.mkextInfoOffset)
    (stated : statedFields (Tree.children dict) = some (some injection.freed, 0))
    (short : injection.bundlePath.length < 0x40000000) (ended : 0 ∉ injection.bundlePath) :
    ∃ info' bundle offset, InBundle after ⟨injection.freed, binOffset, binSize⟩ info' bundle offset := by
  have even := isDict_even (documentDict_eq_some opened).2
  have path := pathNodes_size injection.bundlePath
  have pathEnded := pathNodes_ended ended
  have last : ∀ node, node ∈ Tree.children (appendBundle info node).bundles := by
    intro node
    rw [bundles_appended]
    exact mem_append_right _ mem_cons_self
  cases placed with
  | plistOnly absent =>
    obtain ⟨strings, small⟩ := added_small parsed opened short pathEnded (by omega)
    have shown := @bundleNode_shows _ document.root.tree _ _ strings small
    exact ⟨_, _, 0, rfl, last _, ⟨_, .inr shown, statedFields_path even stated _⟩, .inr ⟨rfl, rfl, rfl⟩⟩
  | executable binary given small inside =>
    have fits : ctx.mkextInfoOffset < u32 := by omega
    have keys := executableNodes_size fits
    have both : (listText (executableNodes ctx.mkextInfoOffset ++
        pathNodes injection.bundlePath)).length ≤ injection.bundlePath.length + 1024 := by
      rw [listText_append, length_append]
      omega
    obtain ⟨strings, printable⟩ := added_small parsed opened short
      (allEnded_append.mpr ⟨executableNodes_ended _, pathEnded⟩) both
    have shown := @bundleNode_shows _ document.root.tree _ _ strings printable
    have grown := mkextAlign_ge binary.length
    obtain ⟨plain, size, -⟩ := @fileEntry_reads ctx.mkext binary ctx.mkextInfoOffset
      (by omega) small
    refine ⟨_, _, ctx.mkextInfoOffset, rfl, last _,
      ⟨_, .inr shown, statedFields_executable even stated _ fits⟩, .inl ⟨positive, plain, rfl, size.symm, ?_⟩⟩
    simp only [overlay_length]
    omega

end PlacedV2

section InjectStep

variable {env : KextExternals} {ctx placed : MkextContext} {injection : Injection}
  {document : XmlDocument} {dict : Tree} {identifier : Bytes} {binOffset binSize : Nat}

theorem injectVersion_cases
    (injected : injectVersion env ctx injection document dict = .ok (placed, binOffset, binSize)) :
    ctx.mkextVersion = mkextVersionV1 ∧
        injectV1 env ctx injection = .ok (placed, binOffset, binSize) ∨
      ctx.mkextVersion = mkextVersionV2 ∧ ∃ info, ctx.info = some info ∧
        injectV2 env ctx info injection document dict = .ok (placed, binOffset, binSize) := by
  unfold injectVersion at injected
  split at injected
  next version => exact .inl ⟨version, injected⟩
  next =>
    split at injected
    next version =>
      split at injected
      · cases injected
      next info present => exact .inr ⟨version, info, present, injected⟩
    next => cases injected

structure Grown (ctx placed : MkextContext) : Prop where
  version : placed.mkextVersion = ctx.mkextVersion
  cached : placed.cachedKexts = ctx.cachedKexts
  valid : Valid placed

theorem Injected.grown (valid : Valid ctx)
    (injected : Injected env ctx injection document dict identifier placed binOffset binSize) :
    Grown ctx placed := by
  rcases injectVersion_cases injected.placed with ⟨version, found⟩ | ⟨version, info, present, found⟩
  · obtain ⟨plistEnd, executable, newSize, done⟩ := injectV1_placed found
    obtain ⟨plist, ends⟩ := done.ends
    have length := done.length
    have inside := done.inside
    obtain ⟨table, -⟩ := valid.slots version
    have free := done.free
    have narrow := valid.narrow
    have fields := placeV1_fields ctx injection.infoPlist executable newSize
    rw [← done.after] at fields
    obtain ⟨size, counted, slots, kept, cached⟩ := fields
    have other : placed.mkextVersion ≠ mkextVersionV2 := by
      rw [kept, version]
      decide
    have later : ctx.mkextSize ≤ newSize := by omega
    refine ⟨kept, cached, ?_, ?_, ?_, fun second => absurd second other⟩
    · rw [length, size]
      exact inside
    · rw [length]
      exact narrow
    · intro _
      rw [size, counted, slots]
      exact ⟨table.trans later, free⟩
  · have done := injectV2_placed found
    have narrow := valid.narrow
    have room := valid.room
    have start := valid.info version
    have other : ctx.mkextVersion ≠ mkextVersionV1 := by rw [version]; decide
    cases done with
    | plistOnly absent =>
      exact ⟨rfl, rfl, room, narrow, fun first => absurd first other, fun _ => start⟩
    | executable binary given small inside =>
      have length := overlay_length ctx.mkext ctx.mkextInfoOffset (fileEntry binary)
      refine ⟨rfl, rfl, ?_, ?_, fun first => absurd first other, fun _ => ?_⟩
      · simp only [length]
        exact room
      · simp only [length]
        exact narrow
      · simp only [length]
        omega

theorem Injected.describes (valid : Valid ctx) (consistent : Consistent ctx)
    (safe : InjectsSafely ctx injection)
    (injected : Injected env ctx injection document dict identifier placed binOffset binSize) :
    (∀ kext ∈ ctx.cachedKexts, Describes placed kext) ∧
      Describes placed ⟨injection.freed, binOffset, binSize⟩ := by
  rcases injectVersion_cases injected.placed with ⟨version, found⟩ | ⟨version, info, present, found⟩
  · obtain ⟨plistEnd, executable, newSize, done⟩ := injectV1_placed found
    obtain ⟨table, -⟩ := valid.slots version
    obtain ⟨empty, behind⟩ := safe.slot version
    have kept : placed.mkextVersion = mkextVersionV1 := by
      rw [done.after, (placeV1_fields ..).2.2.2.1]
      exact version
    refine ⟨?_, .inl ⟨kept, _, placedV1_describes_new done table valid.narrow safe.stored empty⟩⟩
    intro kext member
    rcases consistent.described kext member with ⟨-, index, described⟩ | ⟨other, -⟩
    · exact .inl ⟨kept, index, placedV1_describes_earlier done table behind described⟩
    · rw [version] at other
      exact absurd other (by decide)
  · have done := injectV2_placed found
    obtain ⟨stated, short, ended, positive, before⟩ := safe.bundle version
    have kept : placed.mkextVersion = mkextVersionV2 := (injected.grown valid).version.trans version
    have named : statedFields (Tree.children dict) = some (some injection.freed, 0) := by
      apply stated
      rw [infoDict, injected.parsed, Option.bind_some, injected.opened]
    constructor
    · intro kext member
      rcases consistent.described kext member with ⟨other, -⟩ | ⟨-, info', bundle, offset, described⟩
      · rw [version] at other
        exact absurd other (by decide)
      · have same : info' = info := Option.some.inj (described.present.symm.trans present)
        subst same
        obtain ⟨info'', still⟩ := placedV2_describes_earlier done described (before kext member)
        exact .inr ⟨kept, info'', bundle, offset, still⟩
    · exact .inr ⟨kept, placedV2_describes_new done injected.parsed injected.opened valid.narrow positive named
        short ended⟩

/-- An injection keeps the context valid and its cache consistent, and enters the
kext under the identifier of its plist. -/
theorem injectAbsent_step (valid : Valid ctx) (consistent : Consistent ctx)
    (safe : (injectAbsent env ctx injection).1 = .success → InjectsSafely ctx injection) :
    Valid (injectAbsent env ctx injection).2 ∧ Consistent (injectAbsent env ctx injection).2 ∧
      ∀ kext ∈ (injectAbsent env ctx injection).2.cachedKexts,
        kext ∈ ctx.cachedKexts ∨ plistIdentifier injection.infoPlist = some kext.identifier := by
  rcases @injectAbsent_cases env ctx injection with same |
    ⟨document, dict, identifier, placed, binOffset, binSize, injected, success, after⟩
  · rw [same]
    exact ⟨valid, consistent, fun kext member => .inl member⟩
  · replace safe := safe success
    obtain ⟨version, cached, placedValid⟩ := injected.grown valid
    obtain ⟨earlier, new⟩ := injected.describes valid consistent safe
    rw [after]
    split
    next =>
      refine ⟨⟨placedValid.room, placedValid.narrow, placedValid.slots, placedValid.info⟩, ⟨?_, ?_⟩, ?_⟩
      · intro kext member
        rw [insertCachedMkextKext, cached] at member
        rcases mem_append.mp member with old | last
        · exact (earlier kext old).entered _
        · rw [mem_singleton.mp last]
          exact new.entered _
      · simp only [insertCachedMkextKext, cached, map_append, map_cons, map_nil]
        exact consistent.distinct.append (nodup_singleton _) (by simpa using safe.fresh)
      · intro kext member
        rw [insertCachedMkextKext, cached] at member
        rcases mem_append.mp member with old | last
        · exact .inl old
        · rw [mem_singleton.mp last]
          exact .inr safe.stored
    next =>
      refine ⟨placedValid, ⟨?_, ?_⟩, ?_⟩
      · rw [cached]
        exact earlier
      · rw [cached]
        exact consistent.distinct
      · rw [cached]
        exact fun kext member => .inl member

end InjectStep

section ExcludeStep

variable {env : KextExternals} {ctx : MkextContext} {identifier : Bytes}
  {uninitialised : Option Bytes × Nat}

theorem sameAt_zeroMem {mkext : Bytes} {offset size target count : Nat}
    (apart : Apart offset size target count) : SameAt mkext (zeroMem mkext target count) offset size :=
  slice_overlay_frame (by rw [length_replicate]; exact apart)

theorem zeroMem_length (mkext : Bytes) (offset size : Nat) :
    (zeroMem mkext offset size).length = mkext.length := overlay_length _ _ _

def clearedV1 (mkext : Bytes) (index : Nat) (offsets : KextOffsets) : Bytes :=
  zeroMem (zeroMem (zeroMem mkext offsets.plistOffset offsets.plistSize) offsets.binOffset offsets.binSize)
    (v1KextOffset index) v1KextSize

theorem clearedV1_same {mkext : Bytes} {index : Nat} {offsets : KextOffsets} {offset size : Nat}
    (plist : Apart offset size offsets.plistOffset offsets.plistSize)
    (binary : Apart offset size offsets.binOffset offsets.binSize)
    (slot : Apart offset size (v1KextOffset index) v1KextSize) :
    SameAt mkext (clearedV1 mkext index offsets) offset size :=
  ((sameAt_zeroMem plist).trans (sameAt_zeroMem binary)).trans (sameAt_zeroMem slot)

theorem excludeV1_describes (version : ctx.mkextVersion = mkextVersionV1)
    (safe : ExcludesSafely env ctx identifier uninitialised) {index : Nat} {offsets : KextOffsets}
    (found : internalGetMkextV1KextOffsets env ctx identifier = .ok (index, offsets))
    {kext : MkextKext} (member : kext ∈ ctx.cachedKexts) (describes : Describes ctx kext) :
    Describes { ctx with mkext := clearedV1 ctx.mkext index offsets } kext := by
  rcases describes with ⟨-, other, described⟩ | ⟨second, -⟩
  · obtain ⟨positive, apart⟩ := safe.slots index offsets found
    obtain ⟨place, examined, same⟩ :=
      searchV1Kexts_examined (zero_add _) (fun unmatched => by cases unmatched) found
    -- The slot that is cleared names the excluded identifier, which is not cached.
    have differs : other ≠ index := by
      intro equal
      have named := examined.named
      have identifier' := described.identifier
      rw [← same positive, ← equal] at examined
      have fields := examined.fields
      rw [fields] at named
      rw [named] at identifier'
      apply safe.uncached version
      rw [Option.some.inj identifier']
      exact mem_map_of_mem member
    obtain ⟨plist, binary, slot⟩ := apart other described.listed differs
    have slotKept := @clearedV1_same ctx.mkext index offsets _ _ plist.1 binary.1 slot.1
    have plistKept := @clearedV1_same ctx.mkext index offsets _ _ plist.2 binary.2 slot.2
    generalize clearedV1 ctx.mkext index offsets = cleared at slotKept plistKept ⊢
    exact .inl ⟨version, other, described.frame (le_refl _) (le_refl _) slotKept plistKept⟩
  · rw [version] at second
    exact absurd second (by decide)

theorem searchExcluded_index {bundles : List Tree} {start index binOffset : Nat}
    {fields : Option Bytes × Nat}
    (found : searchExcluded ctx identifier bundles start fields = some (index, binOffset)) :
    ∃ place, index = start + place ∧ place < bundles.length := by
  induction bundles generalizing start fields with
  | nil => cases found
  | cons bundle rest ih =>
    have later : ∀ fields', searchExcluded ctx identifier rest (start + 1) fields' =
        some (index, binOffset) → ∃ place, index = start + place ∧ place < (bundle :: rest).length := by
      intro fields' deeper
      obtain ⟨place, rfl, inside⟩ := ih deeper
      exact ⟨place + 1, by omega, Nat.succ_lt_succ inside⟩
    rw [searchExcluded] at found
    split at found
    next => exact later _ found
    next =>
      split at found
      next => cases found
      next =>
        split at found
        next =>
          cases found
          exact ⟨0, rfl, Nat.succ_pos _⟩
        next => exact later _ found

/-- The bundles left when one is removed still have those that state another
identifier. -/
theorem mem_eraseIdx_of_stated {bundles : List Tree} {index : Nat} {removed : Tree}
    (at' : bundles[index]? = some removed) {stated : Option Bytes × Nat} {offset : Nat}
    (named : statedFields (Tree.children removed) = some (some identifier, offset))
    {bundle : Tree} (member : bundle ∈ bundles) {children : List Tree} (shows : Shows bundle children)
    (other : statedFields children = some stated) (differs : stated.1 ≠ some identifier) :
    bundle ∈ bundles.eraseIdx index := by
  have distinct : bundle ≠ removed := by
    rintro rfl
    rcases shows with same | ⟨empty, -⟩
    · rw [same, named] at other
      exact differs (congrArg Prod.fst (Option.some.inj other)).symm
    · rw [empty] at named
      cases named
  obtain ⟨place, found⟩ := getElem?_of_mem member
  apply mem_eraseIdx_iff_getElem?.mpr
  refine ⟨place, ?_, found⟩
  rintro rfl
  rw [at'] at found
  exact distinct (Option.some.inj found).symm

theorem withBundles_children (info : MkextInfo) (bundles : List Tree) :
    Tree.children (info.withBundles bundles).bundles = bundles := by
  rw [MkextInfo.withBundles]
  cases info.bundles with
  | mk name attributes content children => rfl

theorem excludeV2_describes (version : ctx.mkextVersion = mkextVersionV2)
    (safe : ExcludesSafely env ctx identifier uninitialised) {info : MkextInfo}
    (present : ctx.info = some info) {index binOffset : Nat}
    (found : searchExcluded ctx identifier (Tree.children info.bundles) 0 uninitialised =
      some (index, binOffset))
    {kext : MkextKext} (member : kext ∈ ctx.cachedKexts) (other : kext.identifier ≠ identifier)
    (describes : Describes ctx kext) :
    Describes { ctx with
      mkext := zeroMem ctx.mkext binOffset (word ctx.mkext (binOffset + 4) + v2FileEntrySize),
      info := some (info.withBundles ((Tree.children info.bundles).eraseIdx index)) } kext := by
  rcases describes with ⟨first, -⟩ | ⟨-, info', bundle, offset, described⟩
  · rw [version] at first
    exact absurd first (by decide)
  · have same : info' = info := Option.some.inj (described.present.symm.trans present)
    subst same
    obtain ⟨stated, apart⟩ := safe.bundle info' index binOffset present found
    obtain ⟨place, start, inside⟩ := searchExcluded_index found
    rw [zero_add] at start
    subst start
    obtain ⟨children, shows, fields⟩ := described.identifier
    obtain ⟨offset', named⟩ := stated _ (getElem?_eq_getElem inside)
    have kept := mem_eraseIdx_of_stated (getElem?_eq_getElem inside) named described.listed shows
      fields (by simpa using other)
    have entry : kext.binaryOffset ≠ 0 → SameAt ctx.mkext
        (zeroMem ctx.mkext binOffset (word ctx.mkext (binOffset + 4) + v2FileEntrySize))
        (kext.binaryOffset - v2FileEntrySize) v2FileEntrySize :=
      fun present => sameAt_zeroMem (apart kext member other present)
    have length := zeroMem_length ctx.mkext binOffset
      (word ctx.mkext (binOffset + 4) + v2FileEntrySize)
    generalize zeroMem ctx.mkext binOffset (word ctx.mkext (binOffset + 4) + v2FileEntrySize) =
      cleared at entry length ⊢
    refine .inr ⟨version, _, bundle, offset, described.frame rfl ?_ length entry⟩
    rw [withBundles_children]
    exact kept

inductive Excluded (env : KextExternals) (ctx : MkextContext) (identifier : Bytes)
    (uninitialised : Option Bytes × Nat) : EfiStatus × MkextContext → Prop where
  | refused (status : EfiStatus) : status ≠ .success →
      Excluded env ctx identifier uninitialised (status, ctx)
  | slot (index : Nat) (offsets : KextOffsets) : ctx.mkextVersion = mkextVersionV1 →
      internalGetMkextV1KextOffsets env ctx identifier = .ok (index, offsets) →
      Excluded env ctx identifier uninitialised
        (.success, { ctx with mkext := clearedV1 ctx.mkext index offsets })
  | bundle (info : MkextInfo) (index binOffset : Nat) : ctx.mkextVersion = mkextVersionV2 →
      ctx.info = some info →
      searchExcluded ctx identifier (Tree.children info.bundles) 0 uninitialised =
        some (index, binOffset) →
      Excluded env ctx identifier uninitialised
        (.success, { ctx with
          mkext := zeroMem ctx.mkext binOffset
            (word ctx.mkext (binOffset + 4) + v2FileEntrySize),
          cachedKexts := dropCachedKext identifier ctx.cachedKexts,
          info := some (info.withBundles ((Tree.children info.bundles).eraseIdx index)) })

theorem searchV1Kexts_error {count index : Nat} {isKextMatch : Bool} {last : KextOffsets}
    {status : EfiStatus}
    (search : searchV1Kexts env ctx identifier count index isKextMatch last = .error status) :
    status ≠ .success := by
  induction count generalizing index isKextMatch last with
  | zero =>
    rw [searchV1Kexts] at search
    split at search
    next => cases search
    next =>
      cases search
      nofun
  | succ count ih =>
    rw [searchV1Kexts] at search
    simp only at search
    split at search
    next => exact ih search
    next =>
      split at search
      next =>
        cases search
        nofun
      next =>
        split at search
        next =>
          cases search
          nofun
        next =>
          split at search
          next =>
            cases search
            nofun
          next =>
            split at search
            next =>
              split at search
              next => cases search
              next => exact ih search
            next => exact ih search

theorem exclude_cases : Excluded env ctx identifier uninitialised
    (patcherExcludeMkextKext env ctx identifier uninitialised) := by
  unfold patcherExcludeMkextKext
  split
  next version =>
    split
    next status failed => exact .refused status (searchV1Kexts_error failed)
    next index offsets found => exact .slot index offsets version found
  next =>
    split
    next version =>
      split
      next => exact .refused _ nofun
      next info present =>
        split
        next => exact .refused _ nofun
        next index binOffset found =>
          split
          next => exact .refused _ nofun
          next => exact .bundle info index binOffset version present found
    next => exact .refused _ nofun

/-- A careful exclusion keeps the context valid and its cache consistent, and
version 2 drops just the entry with the identifier. -/
theorem exclude_step (valid : Valid ctx) (consistent : Consistent ctx)
    (safe : (patcherExcludeMkextKext env ctx identifier uninitialised).1 = .success →
      ExcludesSafely env ctx identifier uninitialised) :
    Valid (patcherExcludeMkextKext env ctx identifier uninitialised).2 ∧
      Consistent (patcherExcludeMkextKext env ctx identifier uninitialised).2 ∧
      Exact env ctx (.exclude identifier uninitialised) := by
  have cases' := @exclude_cases env ctx identifier uninitialised
  rw [Exact]
  generalize patcherExcludeMkextKext env ctx identifier uninitialised = after at cases' safe ⊢
  cases cases' with
  | refused status failed => exact ⟨valid, consistent, fun _ success => absurd success failed⟩
  | slot index offsets version found =>
    replace safe := safe rfl
    have length : (clearedV1 ctx.mkext index offsets).length = ctx.mkext.length := by
      rw [clearedV1, zeroMem_length, zeroMem_length, zeroMem_length]
    have described : ∀ kext ∈ ctx.cachedKexts,
        Describes { ctx with mkext := clearedV1 ctx.mkext index offsets } kext :=
      fun kext member => excludeV1_describes version safe found member (consistent.described kext member)
    generalize clearedV1 ctx.mkext index offsets = cleared at length described ⊢
    refine ⟨⟨?_, ?_, valid.slots, ?_⟩, ⟨described, consistent.distinct⟩, fun second => ?_⟩
    · simp only [length]
      exact valid.room
    · simp only [length]
      exact valid.narrow
    · simp only [length]
      exact valid.info
    · rw [version] at second
      exact absurd second (by decide)
  | bundle info index binOffset version present found =>
    replace safe := safe rfl
    have dropped := (dropCachedKext_exact_iff consistent.distinct).mpr (safe.cached version)
    have length := zeroMem_length ctx.mkext binOffset
      (word ctx.mkext (binOffset + 4) + v2FileEntrySize)
    have described : ∀ kext ∈ ctx.cachedKexts, kext.identifier ≠ identifier → Describes { ctx with
          mkext := zeroMem ctx.mkext binOffset
            (word ctx.mkext (binOffset + 4) + v2FileEntrySize),
          info := some (info.withBundles ((Tree.children info.bundles).eraseIdx index)) } kext :=
      fun kext member other => excludeV2_describes version safe present found member other
        (consistent.described kext member)
    generalize zeroMem ctx.mkext binOffset
      (word ctx.mkext (binOffset + 4) + v2FileEntrySize) = cleared at length described ⊢
    rw [dropped]
    refine ⟨⟨?_, ?_, valid.slots, ?_⟩, ⟨?_, ?_⟩, fun _ _ => rfl⟩
    · simp only [length]
      exact valid.room
    · simp only [length]
      exact valid.narrow
    · simp only [length]
      exact valid.info
    · intro kext member
      obtain ⟨inside, other⟩ := mem_filter.mp member
      exact (described kext inside (by simpa using other)).entered _
    · exact consistent.distinct.sublist (filter_sublist.map _)

end ExcludeStep

section Run

variable {env : KextExternals}

theorem perform_step {ctx : MkextContext} (valid : Valid ctx) (consistent : Consistent ctx)
    {operation : Operation} (careful : Careful env ctx operation) :
    Valid (perform env ctx operation) ∧ Consistent (perform env ctx operation) ∧
      Exact env ctx operation := by
  cases operation with
  | lookup identifier inserts => exact ⟨lookup_valid valid, lookup_consistent valid consistent, trivial⟩
  | inject injection =>
    rw [Careful] at careful
    rw [perform, Exact]
    rcases @mkextInjectKext_cases env ctx injection with ⟨identifier, failed, after⟩ | same
    · rw [after]
      exact ⟨lookup_valid valid, lookup_consistent valid consistent,
        fun success => absurd success failed⟩
    · rw [same] at careful ⊢
      obtain ⟨valid', consistent', entered⟩ := injectAbsent_step valid consistent careful
      exact ⟨valid', consistent', fun _ => entered⟩
  | exclude identifier uninitialised => exact exclude_step valid consistent careful

theorem run_behaves {ctx : MkextContext} (valid : Valid ctx) (consistent : Consistent ctx)
    {operations : List Operation} (careful : AllCareful env ctx operations) :
    Behaves env ctx operations := by
  induction operations generalizing ctx with
  | nil => exact consistent
  | cons operation rest ih =>
    obtain ⟨valid', consistent', done⟩ := perform_step valid consistent careful.1
    exact ⟨consistent, done, ih valid' consistent' careful.2⟩

theorem countSlots_some {mkext : Bytes} {mkextSize numKexts numMaxKexts : Nat}
    (counted : countSlots mkext mkextSize numKexts = some numMaxKexts) :
    v1KextOffset numMaxKexts ≤ mkextSize ∧ numKexts ≤ numMaxKexts := by
  obtain ⟨headerSize, header, rest⟩ := Option.bind_eq_some_iff.mp counted
  obtain ⟨rfl, -⟩ := baseOverflowMulAdd_eq_some header
  simp only at rest
  split at rest
  next => cases rest
  next within =>
    obtain ⟨total, added, last⟩ := Option.bind_eq_some_iff.mp rest
    obtain ⟨rfl, -⟩ := baseOverflowAdd_eq_some added
    split at last
    next => cases last
    next =>
      cases last
      rw [v1KextOffset, v1KextSize, coreHeaderSize] at *
      omega

theorem mkextContextInit_valid {address mkextSize : Nat} {mkext : Bytes} {ctx : MkextContext}
    (init : mkextContextInit env address mkext mkextSize = .ok ctx)
    (room : mkextSize ≤ mkext.length) (narrow : mkext.length < u32) :
    Valid ctx ∧ ctx.cachedKexts = [] := by
  unfold mkextContextInit at init
  simp only at init
  split at init
  next => cases init
  next =>
    split at init
    next => cases init
    next =>
      split at init
      next => cases init
      next =>
        split at init
        next version =>
          split at init
          next => cases init
          next numMaxKexts counted =>
            cases init
            refine ⟨⟨room, narrow, fun _ => countSlots_some counted, fun second => ?_⟩, rfl⟩
            simp only [version] at second
            exact absurd second (by decide)
        next other =>
          split at init
          next version =>
            split at init
            next => cases init
            next =>
              split at init
              next info parsed =>
                split at init
                next => cases init
                next placed =>
                  obtain ⟨total, -⟩ := baseOverflowAdd_eq_some (not_not.mp placed)
                  cases init
                  exact ⟨⟨room, narrow, fun first => absurd first other, fun _ => by simp only; omega⟩, rfl⟩
              next => cases init
          next => cases init

end Run

/-- Over every run of operations that are careful in the states they are called in,
the cache is consistent in every state and every operation does what it is to do
with it. -/
theorem mkext_cache_behaves (env : KextExternals) (address mkextSize : Nat) (mkext : Bytes)
    (ctx : MkextContext) (operations : List Operation) (room : mkextSize ≤ mkext.length)
    (narrow : mkext.length < u32) (init : mkextContextInit env address mkext mkextSize = .ok ctx)
    (careful : AllCareful env ctx operations) : Behaves env ctx operations := by
  obtain ⟨valid, empty⟩ := mkextContextInit_valid init room narrow
  apply run_behaves valid _ careful
  constructor
  · rw [empty]
    exact fun kext member => absurd member not_mem_nil
  · rw [empty]
    exact nodup_nil

section Samples

def sampleExternals : KextExternals := ⟨refusing, fun executable _ => some executable⟩

def twoBundles : Bytes := ascii
  ("<dict><key>_MKEXTInfoDictionaries</key><array>" ++
    "<dict><key>CFBundleIdentifier</key><string>a</string>" ++
    "<key>_MKEXTExecutable</key><integer>48</integer></dict>" ++
    "<dict><key>CFBundleIdentifier</key><string>b</string>" ++
    "<key>_MKEXTExecutable</key><integer>64</integer></dict></array></dict>")

/-- An mkext of version 2 with the kexts `a` and `b`, whose executables have four
bytes each. -/
def twoKexts : Bytes :=
  sampleV2Header (76 + twoBundles.length) 2 76 twoBundles.length ++ replicate 4 0 ++
    [0, 0, 0, 0, 0, 0, 0, 4, 1, 2, 3, 4] ++ replicate 4 0 ++
    [0, 0, 0, 0, 0, 0, 0, 4, 5, 6, 7, 8] ++ twoBundles

set_option maxRecDepth 4000 in
theorem twoKexts_narrow : twoKexts.length < u32 := by
  rw [twoKexts, twoBundles]
  repeat rw [ascii_append]
  repeat rw [ascii_ofList]
  decide

theorem twoKexts_opens : ∃ ctx,
    mkextContextInit sampleExternals 0 twoKexts twoKexts.length = .ok ctx ∧
      let looked := perform sampleExternals ctx (.lookup (ascii "a") true)
      looked.cachedKexts = [⟨ascii "a", 56, 4⟩] ∧ looked.mkextVersion = mkextVersionV2 ∧
        (patcherExcludeMkextKext sampleExternals looked (ascii "b") (none, 0)).1 = .success ∧
        (patcherExcludeMkextKext sampleExternals looked (ascii "b") (none, 0)).2.cachedKexts = [] := by
  have probe : (mkextContextInit sampleExternals 0 twoKexts twoKexts.length).toOption.map
      (fun ctx =>
        let looked := perform sampleExternals ctx (.lookup (ascii "a") true)
        (looked.cachedKexts, looked.mkextVersion,
          (patcherExcludeMkextKext sampleExternals looked (ascii "b") (none, 0)).1,
          (patcherExcludeMkextKext sampleExternals looked (ascii "b") (none, 0)).2.cachedKexts)) =
      some ([⟨ascii "a", 56, 4⟩], mkextVersionV2, .success, []) := by
    rw [twoKexts, twoBundles]
    repeat rw [ascii_append]
    repeat rw [ascii_ofList]
    decide +kernel
  generalize mkextContextInit sampleExternals 0 twoKexts twoKexts.length = init at probe
  cases init with
  | error status => cases probe
  | ok ctx =>
    simp only [Except.toOption, Option.map_some, Option.some.injEq, Prod.mk.injEq] at probe
    exact ⟨ctx, rfl, probe.1, probe.2.1, probe.2.2.1, probe.2.2.2⟩

def sampleInjection : Injection where
  identifier := some (ascii "c")
  bundlePath := ascii "/c"
  infoPlist := ascii "<plist><dict><key>CFBundleIdentifier</key><string>c</string></dict></plist>"
  executable := some [9, 9, 9, 9]
  freed := ascii "c"
  appends := true
  lists := true
  inserts := true

def sampleRun : List Operation :=
  [.lookup (ascii "a") true, .lookup (ascii "b") true, .exclude (ascii "a") (none, 0),
    .inject sampleInjection]

/-- The run drops the entry of `a`, keeps the one of `b` and enters `c`, and both steps
that write are careful. -/
theorem twoKexts_run : ∃ ctx,
    mkextContextInit sampleExternals 0 twoKexts twoKexts.length = .ok ctx ∧
      AllCareful sampleExternals ctx sampleRun ∧
      (sampleRun.foldl (perform sampleExternals) ctx).cachedKexts =
        [⟨ascii "b", 72, 4⟩, ⟨ascii "c", 84, 4⟩] := by
  have probe : (mkextContextInit sampleExternals 0 twoKexts twoKexts.length).toOption.any
      (fun ctx =>
        let looked := (sampleRun.take 2).foldl (perform sampleExternals) ctx
        let excluded := perform sampleExternals looked (.exclude (ascii "a") (none, 0))
        decide (looked.mkextVersion = mkextVersionV2 ∧
          looked.cachedKexts = [⟨ascii "a", 56, 4⟩, ⟨ascii "b", 72, 4⟩] ∧
          (internalGetMkextV1KextOffsets sampleExternals looked (ascii "a")).toOption = none ∧
          (looked.info.bind fun info =>
            (searchExcluded looked (ascii "a") (Tree.children info.bundles) 0 (none, 0)).map
              fun found => ((Tree.children info.bundles)[found.1]?.bind fun bundle =>
                statedFields (Tree.children bundle), found.2, word looked.mkext (found.2 + 4))) =
            some (some (some (ascii "a"), 48), 48, 4) ∧
          excluded.mkextVersion = mkextVersionV2 ∧ excluded.cachedKexts = [⟨ascii "b", 72, 4⟩] ∧
          excluded.mkextInfoOffset = 76 ∧
          (perform sampleExternals excluded (.inject sampleInjection)).cachedKexts =
            [⟨ascii "b", 72, 4⟩, ⟨ascii "c", 84, 4⟩])) = true := by
    rw [twoKexts, twoBundles, sampleRun, sampleInjection]
    repeat rw [ascii_append]
    repeat rw [ascii_ofList]
    decide +kernel
  obtain ⟨ctx, opened, facts⟩ := (Option.any_eq_true _ _).mp probe
  have init : mkextContextInit sampleExternals 0 twoKexts twoKexts.length = .ok ctx := by
    generalize mkextContextInit sampleExternals 0 twoKexts twoKexts.length = init at opened
    cases init with
    | error status => cases opened
    | ok other =>
      cases opened
      rfl
  obtain ⟨version, cached, slots, found, versionAfter, cachedAfter, place, final⟩ :=
    of_decide_eq_true facts
  have other : mkextVersionV2 ≠ mkextVersionV1 := by decide
  have excludes : ExcludesSafely sampleExternals
      ((sampleRun.take 2).foldl (perform sampleExternals) ctx) (ascii "a") (none, 0) := by
    generalize (sampleRun.take 2).foldl (perform sampleExternals) ctx = looked
      at version cached slots found
    refine ⟨?_, ?_, ?_, ?_⟩
    · intro first
      exact absurd (version.symm.trans first) other
    · intro index offsets located
      rw [located] at slots
      cases slots
    · intro _
      rw [cached]
      exact .inr (by decide)
    · intro info index binOffset present search
      rw [present, Option.bind_some, search, Option.map_some, Option.some.injEq, Prod.mk.injEq,
        Prod.mk.injEq] at found
      obtain ⟨stated, rfl, size⟩ := found
      refine ⟨?_, ?_⟩
      · intro bundle listed
        rw [listed, Option.bind_some] at stated
        exact ⟨48, stated⟩
      · rw [cached, size]
        decide
  have injects : InjectsSafely (perform sampleExternals
      ((sampleRun.take 2).foldl (perform sampleExternals) ctx)
      (.exclude (ascii "a") (none, 0))) sampleInjection := by
    generalize perform sampleExternals _ (.exclude (ascii "a") (none, 0)) = excluded
      at versionAfter cachedAfter place
    have names : (infoDict sampleInjection.infoPlist).map (fun dict =>
        (dictIdentifier (Tree.children dict), statedFields (Tree.children dict))) =
          some (some (ascii "c"), some (some (ascii "c"), 0)) := by
      rw [sampleInjection]
      repeat rw [ascii_ofList]
      decide +kernel
    refine ⟨?_, ?_, fun first => ?_, fun _ => ⟨?_, by decide, by decide, ?_, ?_⟩⟩
    · obtain ⟨dict, parsed, fields⟩ := Option.map_eq_some_iff.mp names
      rw [plistIdentifier, parsed, Option.bind_some]
      exact congrArg Prod.fst fields
    · rw [cachedAfter]
      decide
    · exact absurd (versionAfter.symm.trans first) other
    · intro dict parsed
      rw [parsed, Option.map_some] at names
      exact congrArg Prod.snd (Option.some.inj names)
    · rw [place]
      decide
    · rw [cachedAfter, place]
      decide
  exact ⟨ctx, init, ⟨trivial, trivial, fun _ => excludes, fun _ => injects, trivial⟩, final⟩

/-- Two lookups, an exclusion and an injection. -/
theorem mkext_cache_behaves_sample : ∃ ctx,
    mkextContextInit sampleExternals 0 twoKexts twoKexts.length = .ok ctx ∧
      Behaves sampleExternals ctx sampleRun ∧
      (sampleRun.foldl (perform sampleExternals) ctx).cachedKexts =
        [⟨ascii "b", 72, 4⟩, ⟨ascii "c", 84, 4⟩] := by
  obtain ⟨ctx, init, careful, final⟩ := twoKexts_run
  exact ⟨ctx, init, mkext_cache_behaves sampleExternals 0 twoKexts.length twoKexts ctx _
    (le_refl _) twoKexts_narrow init careful, final⟩

/-- Excluding `b`, which is not cached, drops the entry of `a`. -/
theorem exclusion_drops_other : ∃ ctx,
    mkextContextInit sampleExternals 0 twoKexts twoKexts.length = .ok ctx ∧
      ¬ Behaves sampleExternals ctx
        [.lookup (ascii "a") true, .exclude (ascii "b") (none, 0)] := by
  obtain ⟨ctx, init, cached, version, success, dropped⟩ := twoKexts_opens
  refine ⟨ctx, init, ?_⟩
  rintro ⟨-, -, -, exact', -⟩
  have filtered := exact' version success
  rw [dropped, cached] at filtered
  revert filtered
  decide

end Samples

end OpenCore.MkextCache
