import OpenCore.MkextSearch

/-!
`PatcherExcludeMkextKext` on one context: what it zeroes, which bundle it removes,
and how much of that the contents of the stack decide. The search of version 2
clears its variables only behind a bundle, so the first dictionary is compared
with whatever its own keys leave there.
-/

namespace OpenCore.MkextExclude

open Base ByteBuffer ByteSlices XmlParse PlistTree MkextFormat MkextState MkextDecompress
  MkextInject MkextBundles MkextCache MkextSearch List
open Plist (ascii ascii_append ascii_ofList)

section Bundles

variable (ctx : MkextContext) (identifier : Bytes)

def fieldsAfter (bundle : Tree) (before : Option Bytes × Nat) : Option (Option Bytes × Nat) :=
  bundleFields (fun value => isString value && (Tree.content value).isSome)
    (dictEntries (Tree.children bundle)) before

def Hits (fields : Option Bytes × Nat) (offset : Nat) : Prop :=
  fields = (some identifier, offset) ∧ 0 < offset ∧ offset < ctx.mkextSize - v2FileEntrySize

/-- The bundle that is to be removed is the first one whose own keys match; those in
front of it read. -/
inductive Target : List Tree → Nat → Nat → Prop where
  | here (bundle : Tree) (rest : List Tree) (fields : Option Bytes × Nat) (offset : Nat) :
      isDict bundle = true → fieldsAfter bundle (none, 0) = some fields →
      Hits ctx identifier fields offset → Target (bundle :: rest) 0 offset
  | behindOther (bundle : Tree) (rest : List Tree) (index offset : Nat) :
      isDict bundle = false → Target rest index offset → Target (bundle :: rest) (index + 1) offset
  | behindDict (bundle : Tree) (rest : List Tree) (fields : Option Bytes × Nat) (index offset : Nat) :
      isDict bundle = true → fieldsAfter bundle (none, 0) = some fields →
      (∀ offset, ¬ Hits ctx identifier fields offset) → Target rest index offset →
      Target (bundle :: rest) (index + 1) offset

def Compressed (offset : Nat) : Prop := word ctx.mkext offset ≠ 0

/-- The bundles tell what is removed whatever the stack holds: when the first
dictionary does not match by its own keys, it may match by what the stack holds
only if the call refuses compressed files either way. -/
def Decided (bundles : List Tree) : Prop :=
  ∀ before bundle rest, bundles = before ++ bundle :: rest →
    (∀ other ∈ before, isDict other = false) → isDict bundle = true →
    ∀ own, fieldsAfter bundle (none, 0) = some own →
    (∀ offset, ¬ Hits ctx identifier own offset) →
    ∀ stack fields offset, fieldsAfter bundle stack = some fields →
      Hits ctx identifier fields offset →
      Compressed ctx offset ∧
        ∃ index entry, Target ctx identifier rest index entry ∧ Compressed ctx entry

end Bundles

section Fields

/-- The runs over the keys of a bundle from two contents of the variables: both fail,
or each variable ends the same or is left alone by both. -/
theorem bundleFields_two (accepts : Tree → Bool) (entries : List (Tree × Tree))
    (first second : Option Bytes × Nat) :
    (bundleFields accepts entries first = none ∧ bundleFields accepts entries second = none) ∨
      ∃ one two, bundleFields accepts entries first = some one ∧
        bundleFields accepts entries second = some two ∧
        (one.1 = two.1 ∨ one.1 = first.1 ∧ two.1 = second.1) ∧
        (one.2 = two.2 ∨ one.2 = first.2 ∧ two.2 = second.2) := by
  induction entries generalizing first second with
  | nil => exact .inr ⟨first, second, rfl, rfl, .inr ⟨rfl, rfl⟩, .inr ⟨rfl, rfl⟩⟩
  | cons entry rest ih =>
    obtain ⟨key, value⟩ := entry
    rw [bundleFields, bundleFields]
    split
    next => exact ih first second
    next name _ =>
      split
      next =>
        split
        next =>
          rcases ih (Tree.content value, first.2) (Tree.content value, second.2) with
            failed | ⟨one, two, ran, ran', identifiers, offsets⟩
          · exact .inl failed
          · refine .inr ⟨one, two, ran, ran', .inl ?_, offsets⟩
            rcases identifiers with same | ⟨left, right⟩
            · exact same
            · rw [left, right]
        next => exact .inl ⟨rfl, rfl⟩
      next =>
        split
        next =>
          split
          next => exact .inl ⟨rfl, rfl⟩
          next offset _ =>
            rcases ih (first.1, offset) (second.1, offset) with
              failed | ⟨one, two, ran, ran', identifiers, offsets⟩
            · exact .inl failed
            · refine .inr ⟨one, two, ran, ran', identifiers, .inl ?_⟩
              rcases offsets with same | ⟨left, right⟩
              · exact same
              · rw [left, right]
        next => exact ih first second

theorem bundleFields_accepted {accepts : Tree → Bool} {entries : List (Tree × Tree)}
    {before fields : Option Bytes × Nat} (ran : bundleFields accepts entries before = some fields) :
    bundleFields (fun _ => true) entries before = some fields := by
  induction entries generalizing before with
  | nil => exact ran
  | cons entry rest ih =>
    obtain ⟨key, value⟩ := entry
    rw [bundleFields] at ran ⊢
    split at ran
    next => exact ih ran
    next name _ =>
      split at ran
      next identifies =>
        split at ran
        next =>
          simp only [identifies, if_true]
          exact ih ran
        next => cases ran
      next other =>
        simp only [if_neg other]
        split at ran
        next executable =>
          simp only [executable, if_true]
          split at ran
          next => cases ran
          next => exact ih ran
        next unknown =>
          simp only [if_neg unknown]
          exact ih ran

variable {ctx : MkextContext} {identifier : Bytes} {bundle : Tree}

theorem fieldsAfter_own {fields : Option Bytes × Nat} {offset : Nat}
    (own : fieldsAfter bundle (none, 0) = some fields) (hits : Hits ctx identifier fields offset)
    (stack : Option Bytes × Nat) : fieldsAfter bundle stack = some fields := by
  obtain ⟨rfl, positive, -⟩ := hits
  rcases bundleFields_two _ (dictEntries (Tree.children bundle)) (none, 0) stack with
    ⟨failed, -⟩ | ⟨one, two, ran, ran', identifiers, offsets⟩
  · exact absurd (own.symm.trans failed) nofun
  · cases Option.some.inj (own.symm.trans ran)
    rw [fieldsAfter, ran']
    rcases identifiers with named | ⟨absent, -⟩
    · rcases offsets with placed | ⟨zero, -⟩
      · exact congrArg some (Prod.ext named.symm placed.symm)
      · exact absurd zero (Nat.ne_of_gt positive)
    · cases absent

theorem fieldsAfter_none_iff (stack : Option Bytes × Nat) :
    fieldsAfter bundle stack = none ↔ fieldsAfter bundle (none, 0) = none := by
  rcases bundleFields_two (fun value => isString value && (Tree.content value).isSome)
      (dictEntries (Tree.children bundle)) (none, 0) stack with
    ⟨failed, failed'⟩ | ⟨one, two, ran, ran', -⟩
  · exact iff_of_true failed' failed
  · rw [fieldsAfter, fieldsAfter, ran, ran']
    exact iff_of_false nofun nofun

end Fields

section Search

variable {ctx : MkextContext} {identifier : Bytes} {bundle : Tree} {rest bundles : List Tree}
  {start : Nat} {stack fields : Option Bytes × Nat}

theorem searchExcluded_other (other : isDict bundle = false) :
    searchExcluded ctx identifier (bundle :: rest) start stack =
      searchExcluded ctx identifier rest (start + 1) stack := by
  rw [searchExcluded, if_pos other]

theorem searchExcluded_fails (dict : isDict bundle = true) (failed : fieldsAfter bundle stack = none) :
    searchExcluded ctx identifier (bundle :: rest) start stack = none := by
  unfold fieldsAfter at failed
  rw [searchExcluded, if_neg (by rw [dict]; decide), failed]

theorem searchExcluded_hit {offset : Nat} (dict : isDict bundle = true)
    (ran : fieldsAfter bundle stack = some fields) (hits : Hits ctx identifier fields offset) :
    searchExcluded ctx identifier (bundle :: rest) start stack = some (start, offset) := by
  obtain ⟨rfl, positive, room⟩ := hits
  unfold fieldsAfter at ran
  rw [searchExcluded, if_neg (by rw [dict]; decide), ran]
  exact if_pos ⟨rfl, positive, room⟩

theorem searchExcluded_miss (dict : isDict bundle = true)
    (ran : fieldsAfter bundle stack = some fields)
    (misses : ∀ offset, ¬ Hits ctx identifier fields offset) :
    searchExcluded ctx identifier (bundle :: rest) start stack =
      searchExcluded ctx identifier rest (start + 1) (none, 0) := by
  unfold fieldsAfter at ran
  rw [searchExcluded, if_neg (by rw [dict]; decide), ran]
  obtain ⟨found, offset⟩ := fields
  refine if_neg fun hit => misses offset ⟨?_, hit.2⟩
  rw [hit.1]

theorem searchExcluded_eq_some_iff {found offset : Nat} :
    searchExcluded ctx identifier bundles start (none, 0) = some (found, offset) ↔
      ∃ index, found = start + index ∧ Target ctx identifier bundles index offset := by
  induction bundles generalizing start with
  | nil => exact iff_of_false nofun fun ⟨_, _, target⟩ => by cases target
  | cons bundle rest ih =>
    cases dict : isDict bundle with
    | false =>
      rw [searchExcluded_other dict, ih]
      constructor
      · rintro ⟨index, rfl, target⟩
        exact ⟨index + 1, add_right_comm _ _ _, .behindOther _ _ _ _ dict target⟩
      · rintro ⟨index, rfl, target⟩
        cases target with
        | here _ _ _ _ isDict' => exact absurd (dict.symm.trans isDict') nofun
        | behindOther _ _ index _ _ target => exact ⟨index, by omega, target⟩
        | behindDict _ _ _ _ _ isDict' => exact absurd (dict.symm.trans isDict') nofun
    | true =>
      cases ran : fieldsAfter bundle (none, 0) with
      | none =>
        rw [searchExcluded_fails dict ran]
        refine iff_of_false nofun fun ⟨_, _, target⟩ => ?_
        cases target with
        | here _ _ _ _ _ ran' => exact absurd (ran.symm.trans ran') nofun
        | behindOther _ _ _ _ other => exact absurd (dict.symm.trans other) nofun
        | behindDict _ _ _ _ _ _ ran' => exact absurd (ran.symm.trans ran') nofun
      | some fields =>
        by_cases hit : ∃ offset, Hits ctx identifier fields offset
        · obtain ⟨offset', hits⟩ := hit
          rw [searchExcluded_hit dict ran hits]
          constructor
          · rintro ⟨⟩
            exact ⟨0, rfl, .here _ _ _ _ dict ran hits⟩
          · rintro ⟨index, rfl, target⟩
            cases target with
            | here _ _ _ _ _ ran' hits' =>
              cases ran.symm.trans ran'
              cases hits.1.symm.trans hits'.1
              rfl
            | behindOther _ _ _ _ other => exact absurd (dict.symm.trans other) nofun
            | behindDict _ _ _ _ _ _ ran' misses =>
              cases ran.symm.trans ran'
              exact absurd hits (misses offset')
        · have misses := not_exists.mp hit
          rw [searchExcluded_miss dict ran misses, ih]
          constructor
          · rintro ⟨index, rfl, target⟩
            exact ⟨index + 1, add_right_comm _ _ _, .behindDict _ _ _ _ _ dict ran misses target⟩
          · rintro ⟨index, rfl, target⟩
            cases target with
            | here _ _ _ _ _ ran' hits =>
              cases ran.symm.trans ran'
              exact absurd hits (misses offset)
            | behindOther _ _ _ _ other => exact absurd (dict.symm.trans other) nofun
            | behindDict _ _ _ index _ _ _ _ target => exact ⟨index, by omega, target⟩

theorem searchExcluded_others {before : List Tree} (others : ∀ other ∈ before, isDict other = false) :
    searchExcluded ctx identifier (before ++ rest) start stack =
      searchExcluded ctx identifier rest (start + before.length) stack := by
  induction before generalizing start with
  | nil => rfl
  | cons other before ih =>
    rw [cons_append, searchExcluded_other (others other mem_cons_self),
      ih fun other member => others other (mem_cons_of_mem _ member), length_cons,
      add_assoc, add_comm 1]

theorem first_dict (bundles : List Tree) :
    (∀ other ∈ bundles, isDict other = false) ∨
      ∃ before bundle rest, bundles = before ++ bundle :: rest ∧
        (∀ other ∈ before, isDict other = false) ∧ isDict bundle = true := by
  induction bundles with
  | nil => exact .inl fun other member => absurd member not_mem_nil
  | cons bundle rest ih =>
    cases dict : isDict bundle with
    | true => exact .inr ⟨[], bundle, rest, rfl, fun _ member => absurd member not_mem_nil, dict⟩
    | false =>
      rcases ih with others | ⟨before, bundle', rest', rfl, others, dict'⟩
      · exact .inl (forall_mem_cons.mpr ⟨dict, others⟩)
      · exact .inr ⟨bundle :: before, bundle', rest', rfl, forall_mem_cons.mpr ⟨dict, others⟩,
          dict'⟩

/-- Bundles that decide are searched alike for whatever the stack holds, or the call
refuses a compressed file both times. -/
theorem Decided.search (decided : Decided ctx identifier bundles) (stack : Option Bytes × Nat) :
    searchExcluded ctx identifier bundles 0 stack =
        searchExcluded ctx identifier bundles 0 (none, 0) ∨ ∃ index offset index' offset',
        searchExcluded ctx identifier bundles 0 stack = some (index, offset) ∧
        searchExcluded ctx identifier bundles 0 (none, 0) = some (index', offset') ∧
        Compressed ctx offset ∧ Compressed ctx offset' := by
  rcases first_dict bundles with others | ⟨before, bundle, rest, rfl, others, dict⟩
  · left
    have all := @searchExcluded_others ctx identifier [] 0
    simp only [append_nil] at all
    rw [all others, all others]
    rfl
  rw [searchExcluded_others others, searchExcluded_others others]
  cases own : fieldsAfter bundle (none, 0) with
  | none =>
    left
    rw [searchExcluded_fails dict own, searchExcluded_fails dict ((fieldsAfter_none_iff stack).mpr own)]
  | some fields =>
    by_cases hit : ∃ offset, Hits ctx identifier fields offset
    · obtain ⟨offset, hits⟩ := hit
      left
      rw [searchExcluded_hit dict own hits, searchExcluded_hit dict (fieldsAfter_own own hits stack) hits]
    have misses := not_exists.mp hit
    rw [searchExcluded_miss dict own misses]
    cases after : fieldsAfter bundle stack with
    | none => exact absurd ((fieldsAfter_none_iff stack).mp after) (by rw [own]; nofun)
    | some fields' =>
      by_cases hit' : ∃ offset, Hits ctx identifier fields' offset
      · obtain ⟨offset, hits⟩ := hit'
        obtain ⟨compressed, index, entry, target, compressed'⟩ :=
          decided before bundle rest rfl others dict fields own misses stack fields' offset after hits
        right
        rw [searchExcluded_hit dict after hits]
        exact ⟨_, offset, _, entry, rfl, searchExcluded_eq_some_iff.mpr ⟨index, rfl, target⟩,
          compressed, compressed'⟩
      · left
        rw [searchExcluded_miss dict after (not_exists.mp hit')]

end Search

section Outcome

variable (env : KextExternals) (ctx : MkextContext) (identifier : Bytes)

/-- The stretches that `PatcherExcludeMkextKext` hands to `ZeroMem`, with offsets and
sizes as they are computed. -/
def zeroedStretches (stack : Option Bytes × Nat) : List (Nat × Nat) :=
  if ctx.mkextVersion = mkextVersionV1 then
    match internalGetMkextV1KextOffsets env ctx identifier with
    | .error _ => []
    | .ok (index, offsets) => [(offsets.plistOffset, offsets.plistSize),
        (offsets.binOffset, offsets.binSize), (v1KextOffset index, v1KextSize)]
  else if ctx.mkextVersion = mkextVersionV2 then
    match ctx.info with
    | none => []
    | some info =>
      match searchExcluded ctx identifier (Tree.children info.bundles) 0 stack with
      | none => []
      | some (_, binOffset) =>
        if word ctx.mkext binOffset ≠ 0 then []
        else [(binOffset, word ctx.mkext (binOffset + 4) + v2FileEntrySize)]
  else []

def zeroAll (mkext : Bytes) (stretches : List (Nat × Nat)) : Bytes :=
  stretches.foldl (fun mkext stretch => zeroMem mkext stretch.1 stretch.2) mkext

def exclusion (stack : Option Bytes × Nat) : (EfiStatus × MkextContext) × List (Nat × Nat) :=
  (patcherExcludeMkextKext env ctx identifier stack,
    zeroedStretches env ctx identifier stack)

def withoutBundle (info : MkextInfo) (index : Nat) (stretches : List (Nat × Nat))
    (cachedKexts : List MkextKext) : MkextContext :=
  { ctx with
    mkext := zeroAll ctx.mkext stretches, cachedKexts := cachedKexts,
    info := some (info.withBundles ((Tree.children info.bundles).eraseIdx index)) }

/-- What a success is to have done: the plist, the binary and the slot of the kext are
zero, or its file entry is and its bundle is gone. -/
inductive Removes : List (Nat × Nat) → MkextContext → Prop where
  | slot (index : Nat) (stretches : List (Nat × Nat)) :
      ctx.mkextVersion = mkextVersionV1 → Stored ctx identifier index →
      stretches = [((plistFile ctx.mkext index).offset, (plistFile ctx.mkext index).fullSize),
        ((binaryFile ctx.mkext index).offset, (binaryFile ctx.mkext index).fullSize),
        (v1KextOffset index, v1KextSize)] →
      Removes stretches { ctx with mkext := zeroAll ctx.mkext stretches }
  | bundle (info : MkextInfo) (index offset : Nat) (bundle : Tree) (stretches : List (Nat × Nat))
      (cachedKexts : List MkextKext) :
      ctx.mkextVersion = mkextVersionV2 → ctx.info = some info →
      (Tree.children info.bundles)[index]? = some bundle →
      statedFields (Tree.children bundle) = some (some identifier, offset) →
      stretches = [(offset, word ctx.mkext (offset + 4) + v2FileEntrySize)] →
      Removes stretches (withoutBundle ctx info index stretches cachedKexts)

structure Excludes : Prop where
  inside : ∀ stack, ∀ stretch ∈ (exclusion env ctx identifier stack).2,
    stretch.1 + stretch.2 ≤ ctx.mkextSize
  refused : ∀ stack, (exclusion env ctx identifier stack).1.1 ≠ .success →
    exclusion env ctx identifier stack =
      (((exclusion env ctx identifier stack).1.1, ctx), [])
  exact : ∀ stack, (exclusion env ctx identifier stack).1.1 = .success →
    Removes ctx identifier (exclusion env ctx identifier stack).2
      (exclusion env ctx identifier stack).1.2
  determined : ∀ stack stack', exclusion env ctx identifier stack =
    exclusion env ctx identifier stack'

structure Excludable : Prop where
  slots : ctx.mkextVersion = mkextVersionV1 →
    ¬ ∃ last, EndsBare env ctx identifier 0 last
  entry : ctx.mkextVersion = mkextVersionV2 → ∀ info, ctx.info = some info →
    ∀ index offset, Target ctx identifier (Tree.children info.bundles) index offset →
      ¬ Compressed ctx offset →
      offset + (word ctx.mkext (offset + 4) + v2FileEntrySize) ≤ ctx.mkextSize
  bundles : ctx.mkextVersion = mkextVersionV2 → ∀ info, ctx.info = some info →
    Decided ctx identifier (Tree.children info.bundles)

end Outcome

section Calls

variable {env : KextExternals} {ctx : MkextContext} {identifier : Bytes} {info : MkextInfo}
  {stack : Option Bytes × Nat}
variable {index offset : Nat}

theorem exclusion_v1_error {status : EfiStatus} (version : ctx.mkextVersion = mkextVersionV1)
    (failed : internalGetMkextV1KextOffsets env ctx identifier = .error status) :
    exclusion env ctx identifier stack = ((status, ctx), []) := by
  unfold exclusion patcherExcludeMkextKext zeroedStretches
  rw [if_pos version, if_pos version, failed]

theorem exclusion_v1_ok {index : Nat} {offsets : KextOffsets}
    (version : ctx.mkextVersion = mkextVersionV1)
    (found : internalGetMkextV1KextOffsets env ctx identifier = .ok (index, offsets)) :
    let stretches := [(offsets.plistOffset, offsets.plistSize), (offsets.binOffset, offsets.binSize),
      (v1KextOffset index, v1KextSize)]
    exclusion env ctx identifier stack =
      ((.success, { ctx with mkext := zeroAll ctx.mkext stretches }), stretches) := by
  unfold exclusion patcherExcludeMkextKext zeroedStretches
  rw [if_pos version, if_pos version, found]
  simp only [zeroAll, foldl_cons, foldl_nil]

theorem second_not_first (version : ctx.mkextVersion = mkextVersionV2) :
    ctx.mkextVersion ≠ mkextVersionV1 := by
  rw [version]
  decide

variable (version : ctx.mkextVersion = mkextVersionV2)

include version

theorem exclusion_unparsed (absent : ctx.info = none) :
    exclusion env ctx identifier stack = ((.unsupported, ctx), []) := by
  unfold exclusion patcherExcludeMkextKext zeroedStretches
  rw [if_neg (second_not_first version), if_neg (second_not_first version), if_pos version,
    if_pos version, absent]

variable (present : ctx.info = some info)

include present

theorem exclusion_missing
    (missing : searchExcluded ctx identifier (Tree.children info.bundles) 0 stack = none) :
    exclusion env ctx identifier stack = ((.notFound, ctx), []) := by
  unfold exclusion patcherExcludeMkextKext zeroedStretches
  rw [if_neg (second_not_first version), if_neg (second_not_first version), if_pos version,
    if_pos version, present]
  simp only [missing]

theorem exclusion_compressed
    (found : searchExcluded ctx identifier (Tree.children info.bundles) 0 stack =
      some (index, offset)) (compressed : Compressed ctx offset) :
    exclusion env ctx identifier stack = ((.unsupported, ctx), []) := by
  unfold exclusion patcherExcludeMkextKext zeroedStretches
  rw [if_neg (second_not_first version), if_neg (second_not_first version), if_pos version,
    if_pos version, present]
  unfold Compressed at compressed
  simp only [found, if_pos compressed]

theorem exclusion_removed
    (found : searchExcluded ctx identifier (Tree.children info.bundles) 0 stack =
      some (index, offset)) (plain : ¬ Compressed ctx offset) :
    let stretches := [(offset, word ctx.mkext (offset + 4) + v2FileEntrySize)]
    exclusion env ctx identifier stack = ((.success, withoutBundle ctx info index stretches
        (dropCachedKext identifier ctx.cachedKexts)), stretches) := by
  unfold exclusion patcherExcludeMkextKext zeroedStretches
  rw [if_neg (second_not_first version), if_neg (second_not_first version), if_pos version,
    if_pos version, present]
  unfold Compressed at plain
  simp only [found, if_neg plain]
  rw [withoutBundle, zeroAll, foldl_cons, foldl_nil, internalDropCachedMkextKext]

end Calls

section Purpose

variable {env : KextExternals} {ctx : MkextContext} {identifier : Bytes}
variable {index offset : Nat}

theorem exclusion_other (stack : Option Bytes × Nat) (first : ctx.mkextVersion ≠ mkextVersionV1)
    (second : ctx.mkextVersion ≠ mkextVersionV2) :
    exclusion env ctx identifier stack = ((.unsupported, ctx), []) := by
  unfold exclusion patcherExcludeMkextKext zeroedStretches
  rw [if_neg first, if_neg first, if_neg second, if_neg second]

theorem exclusion_cases (stack : Option Bytes × Nat) :
    (∃ status, status ≠ .success ∧ exclusion env ctx identifier stack = ((status, ctx), [])) ∨
    (∃ index offsets, ctx.mkextVersion = mkextVersionV1 ∧
      internalGetMkextV1KextOffsets env ctx identifier = .ok (index, offsets)) ∨
    ∃ info index offset, ctx.mkextVersion = mkextVersionV2 ∧ ctx.info = some info ∧
      searchExcluded ctx identifier (Tree.children info.bundles) 0 stack = some (index, offset) ∧
      ¬ Compressed ctx offset := by
  by_cases first : ctx.mkextVersion = mkextVersionV1
  · cases found : internalGetMkextV1KextOffsets env ctx identifier with
    | error status => exact .inl ⟨status, searchV1Kexts_error found, exclusion_v1_error first found⟩
    | ok located => exact .inr (.inl ⟨located.1, located.2, first, rfl⟩)
  by_cases second : ctx.mkextVersion = mkextVersionV2
  · cases present : ctx.info with
    | none => exact .inl ⟨.unsupported, nofun, exclusion_unparsed second present⟩
    | some info =>
      cases found : searchExcluded ctx identifier (Tree.children info.bundles) 0 stack with
      | none => exact .inl ⟨.notFound, nofun, exclusion_missing second present found⟩
      | some target =>
        by_cases compressed : Compressed ctx target.2
        · exact .inl ⟨.unsupported, nofun, exclusion_compressed second present found compressed⟩
        · exact .inr (.inr ⟨info, target.1, target.2, second, rfl, found, compressed⟩)
  · exact .inl ⟨.unsupported, nofun, exclusion_other stack first second⟩

theorem Target.stated {bundles : List Tree} (target : Target ctx identifier bundles index offset) :
    ∃ bundle, bundles[index]? = some bundle ∧
      statedFields (Tree.children bundle) = some (some identifier, offset) := by
  induction target with
  | here bundle rest fields offset dict ran hits =>
    exact ⟨bundle, rfl, by rw [statedFields, bundleFields_accepted ran, hits.1]⟩
  | behindOther bundle rest index offset dict target ih => simpa using ih
  | behindDict bundle rest fields index offset dict ran misses target ih => simpa using ih

theorem Target.not_repeated {bundles : List Tree} {bundle : Tree}
    {fields : Option Bytes × Nat} (target : Target ctx identifier bundles index offset)
    (own : fieldsAfter bundle (none, 0) = some fields)
    (misses : ∀ offset, ¬ Hits ctx identifier fields offset) :
    bundles ≠ bundle :: bundles.eraseIdx index := by
  induction target with
  | here found rest fields' offset dict ran hits =>
    intro same
    cases head_eq_of_cons_eq same
    cases ran.symm.trans own
    exact misses offset hits
  | behindOther other rest index offset dict target ih =>
    intro same
    rw [eraseIdx_cons_succ] at same
    cases head_eq_of_cons_eq same
    exact ih (tail_eq_of_cons_eq same)
  | behindDict other rest fields' index offset dict ran misses' target ih =>
    intro same
    rw [eraseIdx_cons_succ] at same
    cases head_eq_of_cons_eq same
    exact ih (tail_eq_of_cons_eq same)

theorem withoutBundle_inj {info : MkextInfo} {index index' : Nat} {stretches stretches' : List (Nat × Nat)}
    {kexts kexts' : List MkextKext} (same : withoutBundle ctx info index stretches kexts =
      withoutBundle ctx info index' stretches' kexts') :
    (Tree.children info.bundles).eraseIdx index = (Tree.children info.bundles).eraseIdx index' := by
  have infos := Option.some.inj (congrArg MkextContext.info same)
  have bundles := congrArg (fun info : MkextInfo => Tree.children info.bundles) infos
  simpa only [withBundles_children] using bundles

theorem Excludes.decided (excludes : Excludes env ctx identifier)
    (version : ctx.mkextVersion = mkextVersionV2) {info : MkextInfo}
    (present : ctx.info = some info) :
    Decided ctx identifier (Tree.children info.bundles) := by
  intro before bundle rest split others dict own ran misses stack fields offset ran' hits
  have same := excludes.determined stack (none, 0)
  have found : searchExcluded ctx identifier (Tree.children info.bundles) 0 stack =
      some (before.length, offset) := by
    rw [split, searchExcluded_others others, searchExcluded_hit dict ran' hits, zero_add]
  have cleared : searchExcluded ctx identifier (Tree.children info.bundles) 0 (none, 0) =
      searchExcluded ctx identifier rest (before.length + 1) (none, 0) := by
    rw [split, searchExcluded_others others, searchExcluded_miss dict ran misses, zero_add]
  cases search : searchExcluded ctx identifier rest (before.length + 1) (none, 0) with
  | none =>
    rw [exclusion_missing version present (cleared.trans search)] at same
    by_cases compressed : Compressed ctx offset
    · rw [exclusion_compressed version present found compressed] at same
      cases same
    · rw [exclusion_removed version present found compressed] at same
      cases same
  | some located =>
    obtain ⟨index', entry⟩ := located
    obtain ⟨index, rfl, target⟩ := searchExcluded_eq_some_iff.mp search
    by_cases compressed : Compressed ctx offset
    · rw [exclusion_compressed version present found compressed] at same
      by_cases compressed' : Compressed ctx entry
      · exact ⟨compressed, index, entry, target, compressed'⟩
      · rw [exclusion_removed version present (cleared.trans search) compressed'] at same
        cases same
    · rw [exclusion_removed version present found compressed] at same
      by_cases compressed' : Compressed ctx entry
      · rw [exclusion_compressed version present (cleared.trans search) compressed'] at same
        cases same
      · -- Both calls remove a bundle, and not the same one.
        rw [exclusion_removed version present (cleared.trans search) compressed'] at same
        have bundles := withoutBundle_inj (congrArg (fun call => call.1.2) same)
        rw [split, eraseIdx_append_of_length_le (Nat.le_refl _),
          eraseIdx_append_of_length_le (by omega), Nat.sub_self,
          show before.length + 1 + index - before.length = index + 1 by omega] at bundles
        exact absurd (append_cancel_left bundles) (target.not_repeated ran misses)

theorem Excludable.determined (excludable : Excludable env ctx identifier)
    (stack : Option Bytes × Nat) : exclusion env ctx identifier stack =
      exclusion env ctx identifier (none, 0) := by
  by_cases first : ctx.mkextVersion = mkextVersionV1
  · cases found : internalGetMkextV1KextOffsets env ctx identifier with
    | error status => rw [exclusion_v1_error first found, exclusion_v1_error first found]
    | ok located => rw [exclusion_v1_ok first found, exclusion_v1_ok first found]
  by_cases second : ctx.mkextVersion = mkextVersionV2
  · cases present : ctx.info with
    | none => rw [exclusion_unparsed second present, exclusion_unparsed second present]
    | some info =>
      rcases (excludable.bundles second info present).search stack with
        same | ⟨index, offset, index', offset', found, cleared, compressed, compressed'⟩
      · cases search : searchExcluded ctx identifier (Tree.children info.bundles) 0 (none, 0) with
        | none =>
          rw [search] at same
          rw [exclusion_missing second present same, exclusion_missing second present search]
        | some target =>
          rw [search] at same
          by_cases compressed : Compressed ctx target.2
          · rw [exclusion_compressed second present same compressed,
              exclusion_compressed second present search compressed]
          · rw [exclusion_removed second present same compressed,
              exclusion_removed second present search compressed]
      · rw [exclusion_compressed second present found compressed,
          exclusion_compressed second present cleared compressed']
  · rw [exclusion_other stack first second, exclusion_other (none, 0) first second]

theorem Excludable.cleared (excludable : Excludable env ctx identifier) (valid : Valid ctx) :
    (∀ stretch ∈ (exclusion env ctx identifier (none, 0)).2,
      stretch.1 + stretch.2 ≤ ctx.mkextSize) ∧
    ((exclusion env ctx identifier (none, 0)).1.1 = .success →
      Removes ctx identifier (exclusion env ctx identifier (none, 0)).2
        (exclusion env ctx identifier (none, 0)).1.2) := by
  rcases @exclusion_cases env ctx identifier (none, 0) with
    ⟨status, failed, same⟩ | ⟨index, offsets, version, found⟩ |
    ⟨info, index, offset, version, present, found, plain⟩
  · rw [same]
    exact ⟨fun stretch member => absurd member not_mem_nil, fun success => absurd success failed⟩
  · have located := ((internalGetMkextV1KextOffsets_locates_iff env ctx identifier).mpr
      (excludable.slots version)).found index offsets found
    have slots := valid.slots version
    have listed := located.stored.listed
    have slot : v1KextOffset index + v1KextSize ≤ ctx.mkextSize := by
      rw [v1KextOffset, v1KextSize, coreHeaderSize] at *
      omega
    have fields := located.fields
    rw [exclusion_v1_ok version found]
    refine ⟨?_, fun _ => .slot index _ version located.stored (by rw [fields]; rfl)⟩
    simp only [forall_mem_cons, not_mem_nil, false_implies, implies_true, and_true]
    exact ⟨located.plist, located.binary, slot⟩
  · obtain ⟨index', same, target⟩ := searchExcluded_eq_some_iff.mp found
    rw [zero_add] at same
    subst same
    obtain ⟨bundle, listed, stated⟩ := target.stated
    rw [exclusion_removed version present found plain]
    refine ⟨?_, fun _ => .bundle info index offset bundle _ _ version present listed stated rfl⟩
    simp only [forall_mem_cons, not_mem_nil, false_implies, implies_true, and_true]
    exact excludable.entry version info present index offset target plain

end Purpose

theorem Removes.listed {ctx after : MkextContext} {identifier : Bytes}
    {stretches : List (Nat × Nat)} (version : ctx.mkextVersion = mkextVersionV1)
    (removes : Removes ctx identifier stretches after) :
    ∃ index < ctx.numKexts, (v1KextOffset index, v1KextSize) = stretches.getLastD (0, 0) := by
  cases removes with
  | slot index stretches first stored same => exact ⟨index, stored.listed, by rw [same]; rfl⟩
  | bundle info index offset bundle stretches kexts second => exact absurd version (second_not_first second)

/-- The call excludes a kext within the mkext, as a whole or not at all and whatever
the stack holds, just when no kext without a binary is taken for a match, the file
entry of the bundle fits, and the first dictionary decides by its own keys. -/
theorem patcherExcludeMkextKext_excludes_iff (env : KextExternals) (ctx : MkextContext)
    (identifier : Bytes) (valid : Valid ctx) :
    Excludes env ctx identifier ↔ Excludable env ctx identifier := by
  constructor
  · refine fun excludes => ⟨fun version ⟨last, ends⟩ => ?_, fun version info present index offset
      target plain => ?_, fun version info present => excludes.decided version present⟩
    · have found : internalGetMkextV1KextOffsets env ctx identifier =
          .ok (ctx.numKexts, slotOffsets ctx.mkext last) :=
        ends.outlives (Nat.zero_le _) (zero_add _)
      have call := @exclusion_v1_ok env ctx identifier (none, 0) _ _ version found
      have removes := excludes.exact (none, 0)
      rw [call] at removes
      obtain ⟨index, listed, slot⟩ := (removes rfl).listed version
      have offsets : v1KextOffset index = v1KextOffset ctx.numKexts := congrArg Prod.fst slot
      rw [v1KextOffset, v1KextOffset, v1KextSize] at offsets
      omega
    · have found : searchExcluded ctx identifier (Tree.children info.bundles) 0 (none, 0) =
          some (index, offset) :=
        searchExcluded_eq_some_iff.mpr ⟨index, (zero_add _).symm, target⟩
      have inside := excludes.inside (none, 0)
      rw [exclusion_removed version present found plain] at inside
      exact inside _ mem_cons_self
  · intro excludable
    obtain ⟨inside, exact'⟩ := excludable.cleared valid
    refine ⟨fun stack => ?_, fun stack => ?_, fun stack => ?_, fun stack stack' => ?_⟩
    · rw [excludable.determined stack]
      exact inside
    · rcases @exclusion_cases env ctx identifier stack with
        ⟨status, -, same⟩ | ⟨index, offsets, version, found⟩ |
        ⟨info, index, offset, version, present, found, plain⟩
      · rw [same]
        exact fun _ => rfl
      · rw [exclusion_v1_ok version found]
        exact fun failed => absurd rfl failed
      · rw [exclusion_removed version present found plain]
        exact fun failed => absurd rfl failed
    · rw [excludable.determined stack]
      exact exact'
    · rw [excludable.determined stack, excludable.determined stack']

section Samples

def hugeBundles : Bytes := ascii
  ("<dict><key>_MKEXTInfoDictionaries</key><array>" ++
    "<dict><key>CFBundleIdentifier</key><string>a</string>" ++
    "<key>_MKEXTExecutable</key><integer>48</integer></dict></array></dict>")

def hugeEntry : Bytes :=
  sampleV2Header (56 + hugeBundles.length) 1 56 hugeBundles.length ++ replicate 4 0 ++
    [0, 0, 0, 0, 0xFF, 0xFF, 0xFF, 0xFF] ++ hugeBundles

set_option maxRecDepth 4000 in
theorem hugeEntry_length : hugeEntry.length = 225 := by
  rw [hugeEntry, hugeBundles]
  repeat rw [ascii_append]
  repeat rw [ascii_ofList]
  decide

theorem hugeEntry_opens : ∃ ctx,
    mkextContextInit sampleExternals 0 hugeEntry hugeEntry.length = .ok ctx ∧
      ctx.mkextSize = hugeEntry.length ∧
      zeroedStretches sampleExternals ctx (ascii "a") (none, 0) = [(48, 4294967303)] := by
  have probe : (mkextContextInit sampleExternals 0 hugeEntry hugeEntry.length).toOption.map
      (fun ctx => (ctx.mkextSize, zeroedStretches sampleExternals ctx (ascii "a") (none, 0))) =
      some (hugeEntry.length, [(48, 4294967303)]) := by
    rw [hugeEntry, hugeBundles]
    repeat rw [ascii_append]
    repeat rw [ascii_ofList]
    decide +kernel
  generalize mkextContextInit sampleExternals 0 hugeEntry hugeEntry.length = init at probe
  cases init with
  | error status => cases probe
  | ok ctx =>
    simp only [Except.toOption, Option.map_some, Option.some.injEq, Prod.mk.injEq] at probe
    exact ⟨ctx, rfl, probe.1, probe.2⟩

theorem hugeEntry_excludes_iff : ∃ ctx,
    mkextContextInit sampleExternals 0 hugeEntry hugeEntry.length = .ok ctx ∧ Valid ctx ∧
      (Excludes sampleExternals ctx (ascii "a") ↔ Excludable sampleExternals ctx (ascii "a")) := by
  obtain ⟨ctx, init, -⟩ := hugeEntry_opens
  have valid := (mkextContextInit_valid init (Nat.le_refl _) (hugeEntry_length ▸ by decide)).1
  exact ⟨ctx, init, valid, patcherExcludeMkextKext_excludes_iff sampleExternals ctx (ascii "a") valid⟩

/-- The size that is zeroed is read from the file entry and not compared with
anything. -/
theorem hugeEntry_zeroed_outside : ∃ ctx,
    mkextContextInit sampleExternals 0 hugeEntry hugeEntry.length = .ok ctx ∧
      ¬ Excludes sampleExternals ctx (ascii "a") := by
  obtain ⟨ctx, init, size, zeroed⟩ := hugeEntry_opens
  refine ⟨ctx, init, fun excludes => ?_⟩
  have inside := excludes.inside (none, 0)
  rw [exclusion, zeroed, size] at inside
  rw [hugeEntry_length] at inside
  exact absurd (inside _ mem_cons_self) (by decide)

end Samples

end OpenCore.MkextExclude
