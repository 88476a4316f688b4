import OpenCore.MkextCache

/-!
The search of a version 1 mkext for a kext. A slot is passed over, ends the search with an
error, holds the kext, or holds one of that name without a binary.
-/

namespace OpenCore.MkextSearch

open Base ByteBuffer BigEndian ByteSlices XmlParse MkextFormat MkextState MkextInject MkextCache
open Plist (ascii)

section Slots

variable (env : KextExternals) (ctx : MkextContext) (name : Bytes)

def slotOffsets (mkext : Bytes) (index : Nat) : KextOffsets where
  plistOffset := (plistFile mkext index).offset
  plistSize := (plistFile mkext index).fullSize
  binOffset := (binaryFile mkext index).offset
  binSize := (binaryFile mkext index).fullSize

def slotPlist (mkext : Bytes) (index : Nat) : Bytes :=
  slice mkext (plistFile mkext index).offset (plistFile mkext index).fullSize

def Skipped (index : Nat) : Prop :=
  (plistFile ctx.mkext index).compressedSize ≠ 0 ∨
    (binaryFile ctx.mkext index).compressedSize ≠ 0 ∨
      (binaryFile ctx.mkext index).offset = 0

structure Readable (index : Nat) : Prop where
  plist : beyondMkext ctx (plistFile ctx.mkext index).offset
    (plistFile ctx.mkext index).fullSize = false
  binary : beyondMkext ctx (binaryFile ctx.mkext index).offset
    (binaryFile ctx.mkext index).fullSize = false
  copied : env.pool (plistFile ctx.mkext index).fullSize = true
  parsed : (infoDict (slotPlist ctx.mkext index)).isSome

def ReadableMkext : Prop :=
  ∀ index < ctx.numKexts, ¬ Skipped ctx index → Readable env ctx index

def Names (index : Nat) : Prop :=
  plistIdentifier (slotPlist ctx.mkext index) = some name

structure Stored (index : Nat) : Prop where
  listed : index < ctx.numKexts
  uncompressed : ¬ Skipped ctx index
  named : Names ctx name index
  binary : 0 < (binaryFile ctx.mkext index).fullSize

structure Located (index : Nat) (offsets : KextOffsets) : Prop where
  stored : Stored ctx name index
  fields : offsets = slotOffsets ctx.mkext index
  plist : offsets.plistOffset + offsets.plistSize ≤ ctx.mkextSize
  binary : offsets.binOffset + offsets.binSize ≤ ctx.mkextSize

structure Locates : Prop where
  found : ∀ index offsets,
    internalGetMkextV1KextOffsets env ctx name = .ok (index, offsets) →
      Located ctx name index offsets
  missing : ∀ status, internalGetMkextV1KextOffsets env ctx name = .error status →
    ReadableMkext env ctx → ∀ index, ¬ Stored ctx name index

/-- From a start on, the kext that is examined last has the identifier and an empty
binary, and no kext in front of it ends the search. -/
structure EndsBare (start last : Nat) : Prop where
  listed : last < ctx.numKexts
  uncompressed : ¬ Skipped ctx last
  readable : Readable env ctx last
  named : Names ctx name last
  bare : (binaryFile ctx.mkext last).fullSize = 0
  behind : ∀ index, last < index → index < ctx.numKexts → Skipped ctx index
  before : ∀ index, start ≤ index → index < last → ¬ Skipped ctx index →
    Readable env ctx index ∧ ¬ Stored ctx name index

end Slots

section Steps

variable {env : KextExternals} {ctx : MkextContext} {name : Bytes}
  {count index : Nat} {isKextMatch : Bool} {last : KextOffsets}

theorem searchV1Kexts_skipped (skipped : Skipped ctx index) :
    searchV1Kexts env ctx name (count + 1) index isKextMatch last =
      searchV1Kexts env ctx name count (index + 1) isKextMatch last := by
  rw [searchV1Kexts]
  exact if_pos skipped

theorem searchV1Kexts_unreadable (examined : ¬ Skipped ctx index)
    (unreadable : ¬ Readable env ctx index) :
    ∃ status, searchV1Kexts env ctx name (count + 1) index isKextMatch last = .error status := by
  rw [searchV1Kexts]
  simp only
  split
  next skipped => exact absurd skipped examined
  split
  next => exact ⟨_, rfl⟩
  next within =>
    simp only [not_or, Bool.not_eq_true] at within
    split
    next => exact ⟨_, rfl⟩
    next copied =>
      split
      next => exact ⟨_, rfl⟩
      next dict parsed =>
        exact absurd ⟨within.1, within.2, by simpa using copied, by rw [slotPlist, parsed]; rfl⟩ unreadable

/-- A slot that reads: a kext of another name clears the flag, one of the name sets
it, and with a binary it ends the search. -/
theorem searchV1Kexts_readable (examined : ¬ Skipped ctx index)
    (readable : Readable env ctx index) :
    searchV1Kexts env ctx name (count + 1) index isKextMatch last =
      if plistIdentifier (slotPlist ctx.mkext index) = some name then
        if 0 < (binaryFile ctx.mkext index).fullSize then
          .ok (index, slotOffsets ctx.mkext index)
        else searchV1Kexts env ctx name count (index + 1) true
          (slotOffsets ctx.mkext index)
      else searchV1Kexts env ctx name count (index + 1) false
        (slotOffsets ctx.mkext index) := by
  obtain ⟨dict, parsed⟩ := Option.isSome_iff_exists.mp readable.parsed
  have placed : 0 < (binaryFile ctx.mkext index).offset :=
    Nat.pos_of_ne_zero fun zero => examined (.inr (.inr zero))
  have named : plistIdentifier (slotPlist ctx.mkext index) =
      dictIdentifier (Tree.children dict) := by
    rw [plistIdentifier, parsed]
    rfl
  rw [slotPlist] at parsed
  rw [searchV1Kexts]
  simp only [readable.plist, readable.binary, readable.copied, parsed, named, placed, true_and]
  split
  next skipped => exact absurd skipped examined
  next => rfl

end Steps

section Loop

variable {env : KextExternals} {ctx : MkextContext} {name : Bytes}
  {count index : Nat} {isKextMatch : Bool} {last : KextOffsets}
variable {place : Nat}

theorem Readable.located (readable : Readable env ctx index) (stored : Stored ctx name index) :
    Located ctx name index (slotOffsets ctx.mkext index) where
  stored := stored
  fields := rfl
  plist := inBounds readable.plist
  binary := inBounds readable.binary

theorem EndsBare.next (ends : EndsBare env ctx name index place) :
    EndsBare env ctx name (index + 1) place :=
  { ends with before := fun other above => ends.before other (Nat.le_of_succ_le above) }

theorem searchV1Kexts_allSkipped
    (skipped : ∀ other, index ≤ other → other < index + count → Skipped ctx other) :
    searchV1Kexts env ctx name count index true last = .ok (index + count, last) := by
  induction count generalizing index with
  | zero => rfl
  | succ count ih =>
    rw [searchV1Kexts_skipped (skipped index (Nat.le_refl _) (by omega)),
      ih fun other above below => skipped other (by omega) (by omega)]
    rw [add_right_comm, add_assoc]

/-- The flag outlives the loop when the last kext examined matches without a
binary. -/
theorem EndsBare.outlives (ends : EndsBare env ctx name index place)
    (reached : index ≤ place) (all : index + count = ctx.numKexts) :
    searchV1Kexts env ctx name count index isKextMatch last =
      .ok (ctx.numKexts, slotOffsets ctx.mkext place) := by
  induction count generalizing index isKextMatch last with
  | zero => exact absurd ends.listed (by omega)
  | succ count ih =>
    rcases Nat.lt_or_eq_of_le reached with before | rfl
    · by_cases examined : Skipped ctx index
      · rw [searchV1Kexts_skipped examined]
        exact ih ends.next before (by omega)
      · obtain ⟨readable, unstored⟩ := ends.before index (Nat.le_refl _) before examined
        rw [searchV1Kexts_readable examined readable]
        split
        next named =>
          split
          next binary =>
            exact absurd ⟨Nat.lt_trans before ends.listed, examined, named, binary⟩ unstored
          next => exact ih ends.next before (by omega)
        next => exact ih ends.next before (by omega)
    · have named : plistIdentifier (slotPlist ctx.mkext index) = some name := ends.named
      have behind : ∀ other, index + 1 ≤ other → other < index + 1 + count →
          Skipped ctx other := fun other above below => ends.behind other above (by omega)
      rw [searchV1Kexts_readable ends.uncompressed ends.readable, if_pos named, ends.bare,
        if_neg (Nat.lt_irrefl 0), searchV1Kexts_allSkipped behind, ← all, add_right_comm, add_assoc]

theorem searchV1Kexts_found {found : Nat × KextOffsets} (all : index + count = ctx.numKexts)
    (search : searchV1Kexts env ctx name count index isKextMatch last = .ok found) :
    Located ctx name found.1 found.2 ∨
      (isKextMatch = true ∧ ∀ other, index ≤ other → other < ctx.numKexts → Skipped ctx other) ∨
      ∃ place, EndsBare env ctx name index place := by
  induction count generalizing index isKextMatch last with
  | zero =>
    rw [searchV1Kexts] at search
    split at search
    next matched => exact .inr (.inl ⟨matched, fun other above below => by omega⟩)
    next => cases search
  | succ count ih =>
    have rest : index + 1 + count = ctx.numKexts := by omega
    by_cases examined : Skipped ctx index
    · rw [searchV1Kexts_skipped examined] at search
      rcases ih rest search with located | ⟨matched, skipped⟩ | ⟨place, ends⟩
      · exact .inl located
      · refine .inr (.inl ⟨matched, fun other above below => ?_⟩)
        rcases Nat.lt_or_eq_of_le above with behind | rfl
        · exact skipped other behind below
        · exact examined
      · refine .inr (.inr ⟨place, { ends with before := fun other above below unskipped => ?_ }⟩)
        rcases Nat.lt_or_eq_of_le above with behind | rfl
        · exact ends.before other behind below unskipped
        · exact absurd examined unskipped
    by_cases readable : Readable env ctx index
    · -- Behind a slot that reads the flag says whether it matched, so only a match can end bare.
      have carried : ∀ place, ¬ Stored ctx name index → EndsBare env ctx name (index + 1) place →
            EndsBare env ctx name index place := by
        refine fun place unstored ends =>
          { ends with before := fun other above below unskipped => ?_ }
        rcases Nat.lt_or_eq_of_le above with behind | rfl
        · exact ends.before other behind below unskipped
        · exact ⟨readable, unstored⟩
      rw [searchV1Kexts_readable examined readable] at search
      split at search
      next named =>
        split at search
        next binary =>
          cases search
          exact .inl (readable.located ⟨by omega, examined, named, binary⟩)
        next bare =>
          have unstored : ¬ Stored ctx name index := fun stored => bare stored.binary
          rcases ih rest search with located | ⟨-, skipped⟩ | ⟨place, ends⟩
          · exact .inl located
          · exact .inr (.inr ⟨index, by omega, examined, readable, named, by omega, skipped,
              fun other above below => absurd below (by omega)⟩)
          · exact .inr (.inr ⟨place, carried place unstored ends⟩)
      next other =>
        rcases ih rest search with located | ⟨matched, -⟩ | ⟨place, ends⟩
        · exact .inl located
        · cases matched
        · exact .inr (.inr ⟨place, carried place (fun stored => other stored.named) ends⟩)
    · obtain ⟨status, failed⟩ := @searchV1Kexts_unreadable env ctx name count index
        isKextMatch last examined readable
      rw [failed] at search
      cases search

theorem searchV1Kexts_missing {status : EfiStatus} (all : index + count = ctx.numKexts)
    (search : searchV1Kexts env ctx name count index isKextMatch last = .error status)
    (readable : ReadableMkext env ctx) (above : index ≤ place) :
    ¬ Stored ctx name place := by
  intro stored
  induction count generalizing index isKextMatch last with
  | zero => exact absurd stored.listed (by omega)
  | succ count ih =>
    by_cases examined : Skipped ctx index
    · rw [searchV1Kexts_skipped examined] at search
      refine ih (by omega) search (Nat.lt_of_le_of_ne above ?_)
      rintro rfl
      exact stored.uncompressed examined
    · rw [searchV1Kexts_readable examined (readable index (by omega) examined)] at search
      split at search
      next named =>
        split at search
        next => cases search
        next bare =>
          refine ih (by omega) search (Nat.lt_of_le_of_ne above ?_)
          rintro rfl
          exact bare stored.binary
      next other =>
        refine ih (by omega) search (Nat.lt_of_le_of_ne above ?_)
        rintro rfl
        exact other stored.named

end Loop

/-- The search finds the kext in its slot or tells that there is none, unless the kext
examined last has the identifier and an empty binary. -/
theorem internalGetMkextV1KextOffsets_locates_iff (env : KextExternals)
    (ctx : MkextContext) (name : Bytes) :
    Locates env ctx name ↔
      ¬ ∃ last, EndsBare env ctx name 0 last := by
  constructor
  · rintro locates ⟨last, ends⟩
    have located := locates.found _ _ (ends.outlives (Nat.zero_le _) (zero_add _))
    exact absurd located.stored.listed (Nat.lt_irrefl _)
  · refine fun proper => ⟨fun index offsets search => ?_, fun status search readable index => ?_⟩
    · rcases searchV1Kexts_found (zero_add _) search with located | ⟨matched, -⟩ | ends
      · exact located
      · cases matched
      · exact absurd ends proper
    · exact searchV1Kexts_missing (zero_add _) search readable (Nat.zero_le _)

section Samples

def barePlist : Bytes :=
  ascii "<plist><dict><key>CFBundleIdentifier</key><string>a</string></dict></plist>"

/-- An mkext of version 1 for x86-64 whose only kext has a name and an empty binary. -/
def bareMkext : Bytes :=
  let words := [mkextMagic, mkextSignature, 64 + barePlist.length, 0, mkextVersionV1, 1,
    machCpuTypeX8664, 0, 64, 0, barePlist.length, 0, 64, 0, 0, 0]
  words.flatMap (toBigEndian 4) ++ barePlist

theorem bareMkext_opens : ∃ ctx,
    mkextContextInit sampleExternals 0 bareMkext bareMkext.length = .ok ctx ∧
      ctx.numKexts = 1 ∧ ∃ offsets,
        internalGetMkextV1KextOffsets sampleExternals ctx (ascii "a") = .ok (1, offsets) := by
  have probe : (mkextContextInit sampleExternals 0 bareMkext bareMkext.length).toOption.map
      (fun ctx => (ctx.numKexts,
        (internalGetMkextV1KextOffsets sampleExternals ctx (ascii "a")).toOption.map Prod.fst)) =
      some (1, some 1) := by
    rw [bareMkext, barePlist, Plist.ascii_ofList]
    decide +kernel
  generalize mkextContextInit sampleExternals 0 bareMkext bareMkext.length = init at probe
  cases init with
  | error status => cases probe
  | ok ctx =>
    simp only [Except.toOption, Option.map_some, Option.some.injEq, Prod.mk.injEq] at probe
    obtain ⟨counted, found⟩ := probe
    refine ⟨ctx, rfl, counted, ?_⟩
    cases search : internalGetMkextV1KextOffsets sampleExternals ctx (ascii "a") with
    | error status =>
      rw [search] at found
      cases found
    | ok located =>
      obtain ⟨index, offsets⟩ := located
      rw [search] at found
      cases found
      exact ⟨offsets, rfl⟩

/-- The returned index is that of no kext. -/
theorem bareMkext_mislocated : ∃ ctx,
    mkextContextInit sampleExternals 0 bareMkext bareMkext.length = .ok ctx ∧
      ¬ Locates sampleExternals ctx (ascii "a") := by
  obtain ⟨ctx, init, counted, offsets, search⟩ := bareMkext_opens
  refine ⟨ctx, init, fun locates => ?_⟩
  have listed := (locates.found 1 offsets search).stored.listed
  rw [counted] at listed
  exact absurd listed (Nat.lt_irrefl 1)

end Samples

end OpenCore.MkextSearch
