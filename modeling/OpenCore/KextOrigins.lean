import OpenCore.EntryInvariant

/-!
Where the entries of the cache come from. Patches, quirks and blocks look their kext up, and
an injection looks up its identifier and its dependencies, so every one of them may add
entries.
-/

namespace OpenCore.KextOrigins

open Base ByteBuffer Plist PrelinkedKext KextCache PrelinkedInject InjectFrame EntryInvariant

section Operations
variable (env : Externals)

abbrev Patcher := PatcherContext → Bytes → EfiStatus × Bytes

def patcherInitContextFromPrelinked (ctx : PrelinkedContext) (name : Text) :
    Option PatcherContext × PrelinkedContext :=
  match internalCachedPrelinkedKext env ctx name with
  | (none, after) => (none, after)
  | (some ref, after) => ((after.kext ref).map Kext.context, after)

def withImage (ctx : PrelinkedContext) (image : Bytes) : PrelinkedContext :=
  { ctx with collection := { ctx.collection with prelinked := image } }

def prelinkedContextApplyPatch (ctx : PrelinkedContext) (identifier : Text)
    (patcher : Patcher) : EfiStatus × PrelinkedContext :=
  match patcherInitContextFromPrelinked env ctx identifier with
  | (none, after) => (.notFound, after)
  | (some kext, after) =>
    let (status, image) := patcher kext after.collection.prelinked
    (status, withImage after image)

/-- `PrelinkedContextApplyQuirk`: the quirk decides what a missing kext means. -/
def prelinkedContextApplyQuirk (ctx : PrelinkedContext) (identifier : Text)
    (quirk : Option PatcherContext → Bytes → EfiStatus × Bytes) : EfiStatus × PrelinkedContext :=
  let (kext, after) := patcherInitContextFromPrelinked env ctx identifier
  let (status, image) := quirk kext after.collection.prelinked
  (status, withImage after image)

def prelinkedContextBlock (ctx : PrelinkedContext) (identifier : Text) (exclude : Bool)
    (block : Patcher) (excludeKext : PatcherContext → PrelinkedContext →
      EfiStatus × PrelinkedContext) : EfiStatus × PrelinkedContext :=
  match patcherInitContextFromPrelinked env ctx identifier with
  | (none, after) => (.notFound, after)
  | (some kext, after) =>
    if exclude then excludeKext kext after
    else
      let (status, image) := block kext after.collection.prelinked
      (status, withImage after image)

end Operations

inductive Reached (env : Injector) : PrelinkedContext → Prop where
  | init (blank ctx : PrelinkedContext) (kernel : KextRef)
      (empty : blank.heap = [] ∧ blank.prelinkedKexts = [] ∧ blank.injectedKexts = [])
      (cached : internalCachedPrelinkedKernel env.toExternals blank =
        (some kernel, ctx)) :
      Reached env ctx
  | patch (ctx : PrelinkedContext) (identifier : Text) (patcher : Patcher)
      (before : Reached env ctx) :
      Reached env
        (prelinkedContextApplyPatch env.toExternals ctx identifier patcher).2
  | quirk (ctx : PrelinkedContext) (identifier : Text)
      (quirk : Option PatcherContext → Bytes → EfiStatus × Bytes)
      (before : Reached env ctx) :
      Reached env
        (prelinkedContextApplyQuirk env.toExternals ctx identifier quirk).2
  | block (ctx : PrelinkedContext) (identifier : Text) (patcher : Patcher)
      (excludeKext : PatcherContext → PrelinkedContext → EfiStatus × PrelinkedContext)
      (before : Reached env ctx) :
      Reached env (prelinkedContextBlock env.toExternals ctx identifier false
        patcher excludeKext).2
  | inject (ctx : PrelinkedContext) (fuel : Nat) (request : InjectRequest)
      (status : EfiStatus) (after : PrelinkedContext) (before : Reached env ctx)
      (done : prelinkedInjectKext env fuel request ctx = some (status, after)) :
      Reached env after

def InKextList (ctx : PrelinkedContext) (identifier : Bytes) : Prop :=
  ∃ node ∈ ctx.kextList, ∃ entry ∈ plistDictChildren node,
    (plistKeyValue entry.1).map Text.value = some infoBundleIdentifierKey ∧
      (xmlNodeContent entry.2).map Text.value = some identifier

section Listed
variable (identifier : Bytes)

theorem createField_found (prelinked is32Bit : Bool) (fields : KextFields) (key : Bytes)
    (value : XmlNode)
    (found : (createField prelinked (some identifier) is32Bit fields key value).1.found = true) :
    fields.found = true ∨
      key = infoBundleIdentifierKey ∧ (xmlNodeContent value).map Text.value = some identifier := by
  unfold createField at found
  split at found
  · rename_i named
    unfold createIdentifier at found
    simp only at found
    split at found
    · exact Or.inl found
    · rcases Bool.or_eq_true_iff.mp found with old | same
      · exact Or.inl old
      · exact Or.inr ⟨named.2, of_decide_eq_true same⟩
  · -- No other branch sets the mark.
    left
    repeat' split at found
    all_goals first
      | exact found
      | rw [(createInteger_named fields key value).2] at found
        exact found

theorem createFields_found (prelinked is32Bit : Bool) (entries : List (XmlNode × XmlNode))
    (fields : KextFields) (unmarked : fields.found = false)
    (found : (createFields prelinked (some identifier) is32Bit entries fields).found = true) :
    ∃ entry ∈ entries, (plistKeyValue entry.1).map Text.value = some infoBundleIdentifierKey ∧
      (xmlNodeContent entry.2).map Text.value = some identifier := by
  induction entries generalizing fields with
  | nil =>
    rw [createFields, unmarked] at found
    cases found
  | cons entry rest ih =>
    obtain ⟨key, value⟩ := entry
    have later : ∀ next : KextFields, next.found = false →
        (createFields prelinked (some identifier) is32Bit rest next).found = true →
        ∃ entry ∈ (key, value) :: rest,
          (plistKeyValue entry.1).map Text.value = some infoBundleIdentifierKey ∧
            (xmlNodeContent entry.2).map Text.value = some identifier := by
      intro next none ran
      obtain ⟨entry, member, named⟩ := ih next none ran
      exact ⟨entry, List.mem_cons_of_mem _ member, named⟩
    cases name : plistKeyValue key with
    | none =>
      simp only [createFields, name] at found
      exact later fields unmarked found
    | some text =>
      have here := createField_found identifier prelinked is32Bit fields text.value value
      cases marked : (createField prelinked (some identifier) is32Bit fields text.value
          value).1.found with
      | true =>
        rcases here marked with old | ⟨same, content⟩
        · rw [unmarked] at old
          cases old
        · exact ⟨(key, value), List.mem_cons_self, by simp [name, same], content⟩
      | false =>
        simp only [createFields, name] at found
        split at found
        · rw [marked] at found
          cases found
        · exact later _ marked found

theorem listedKext_inKextList {identifier : Bytes} (env : Externals)
    {ctx : PrelinkedContext} {kext : Kext} (listed : listedKext env ctx identifier = some kext) :
    InKextList ctx identifier := by
  obtain ⟨node, member, made⟩ := List.exists_of_findSome?_eq_some listed
  obtain ⟨plist, cast, created⟩ := Option.bind_eq_some_iff.mp made
  have same := plistNodeCast_dict cast
  subst same
  obtain ⟨fields, fieldsEq, found, _⟩ := internalCreatePrelinkedKext_fields env created
  rw [fieldsEq] at found
  exact ⟨plist, member, createFields_found identifier true _ _ _ rfl found⟩

end Listed

section Origins
variable {env : Injector} {ctx : PrelinkedContext}

def Origin (env : Externals) (ctx : PrelinkedContext) (ref : KextRef) (identifier : Bytes) : Prop :=
  InKextList ctx identifier ∨ ref ∈ ctx.injectedKexts ∨
    ctx.isKernelCollection = true ∧ env.entryPool identifier = true

def originProperty (env : Externals) : EntryProperty where
  entry := fun ctx ref kext =>
    (ref = 0 → kext.identifier.value = ascii kernelIdentifier) ∧
      (ref ≠ 0 → Origin env ctx ref kext.identifier.value)
  libraries := fun _ => True
  node := fun _ => True

theorem stubAllowed_origin (env : Externals) (ctx : PrelinkedContext) (text : Text) :
    StubAllowed env (originProperty env) ctx text := by
  intro _ _ collection pool ref later
  exact ⟨fun first => absurd first later, fun _ => Or.inr (Or.inr ⟨collection, pool⟩)⟩

theorem originProperty_rule (env : Externals) :
    EntryRule env (originProperty env) := by
  constructor
  · intro before after ref kext kexts injected mode ⟨kernel, origin⟩
    refine ⟨kernel, fun later => ?_⟩
    rcases origin later with ⟨node, member, named⟩ | listed | ⟨collection, pool⟩
    · exact Or.inl ⟨node, kexts member, named⟩
    · exact Or.inr (Or.inl (injected listed))
    · exact Or.inr (Or.inr ⟨mode.trans collection, pool⟩)
  · intro ctx ref old new name _ entry
    simp only [originProperty, name]
    exact entry
  · intro ctx identifier ref kext later _ listed
    refine ⟨⟨fun first => absurd first later, fun _ => Or.inl ?_⟩, fun _ _ => trivial⟩
    rw [listedKext_named env listed]
    exact listedKext_inKextList env listed
  · intro libraries _ text _ ctx
    exact stubAllowed_origin env ctx text
  · intro ctx
    exact stubAllowed_origin env ctx (literal hidFamily)
  · intro ctx ref old new later member _
    exact ⟨fun first => absurd first later, fun _ => Or.inr (Or.inl member)⟩
  · intro text _
    trivial

theorem requestAllowed_origin (env : Injector) (ctx : PrelinkedContext)
    (request : InjectRequest) :
    RequestAllowed env (originProperty env.toExternals) ctx request :=
  ⟨fun text _ => stubAllowed_origin env.toExternals ctx text,
    fun _ _ copied _ _ _ _ _ _ _ _ text _ _ =>
      stubAllowed_origin env.toExternals copied text⟩

theorem withImage_painted (ctx : PrelinkedContext) (image : Bytes) :
    Painted ctx (withImage ctx image) := rfl

theorem patched_settled (settled : Settled (originProperty env.toExternals) ctx)
    (identifier : Text) (image : Bytes) :
    Settled (originProperty env.toExternals)
      (withImage (internalCachedPrelinkedKext env.toExternals ctx identifier).2 image) := by
  have rule := originProperty_rule env.toExternals
  have looked := settled.lookup rule (stubAllowed_origin env.toExternals ctx identifier)
  exact looked.painted rule (withImage_painted _ image)

theorem patcherInit_context (env : Externals) (ctx : PrelinkedContext) (identifier : Text) :
    (patcherInitContextFromPrelinked env ctx identifier).2 =
      (internalCachedPrelinkedKext env ctx identifier).2 := by
  unfold patcherInitContextFromPrelinked
  split
  · rename_i result
    rw [result]
  · rename_i result
    rw [result]

theorem withImage_self (ctx : PrelinkedContext) :
    withImage ctx ctx.collection.prelinked = ctx := rfl

theorem operation_cases (env : Externals) (ctx : PrelinkedContext) (identifier : Text) :
    (∀ patcher, ∃ image, (prelinkedContextApplyPatch env ctx identifier patcher).2 =
      withImage (internalCachedPrelinkedKext env ctx identifier).2 image) ∧
    (∀ quirk, ∃ image, (prelinkedContextApplyQuirk env ctx identifier quirk).2 =
      withImage (internalCachedPrelinkedKext env ctx identifier).2 image) ∧
    (∀ block excludeKext, ∃ image, (prelinkedContextBlock env ctx identifier false block
      excludeKext).2 = withImage (internalCachedPrelinkedKext env ctx identifier).2 image) := by
  have looked := patcherInit_context env ctx identifier
  unfold prelinkedContextApplyPatch prelinkedContextApplyQuirk prelinkedContextBlock
  generalize patcherInitContextFromPrelinked env ctx identifier = found at looked
  obtain ⟨kext, after⟩ := found
  simp only at looked
  rw [← looked]
  refine ⟨fun patcher => ?_, fun quirk => ⟨_, rfl⟩, fun block excludeKext => ?_⟩
  · cases kext with
    | none => exact ⟨_, (withImage_self after).symm⟩
    | some kext => exact ⟨_, rfl⟩
  · cases kext with
    | none => exact ⟨_, (withImage_self after).symm⟩
    | some kext => exact ⟨_, rfl⟩

theorem Reached.settled (reached : Reached env ctx) :
    Settled (originProperty env.toExternals) ctx := by
  induction reached with
  | init blank ctx kernel empty cached =>
    exact Settled.init empty cached
      (fun _ => ⟨fun _ => rfl, fun later => absurd rfl later⟩) (fun _ _ => trivial)
  | patch ctx identifier patcher _ ih =>
    obtain ⟨image, same⟩ := (operation_cases env.toExternals ctx identifier).1 patcher
    rw [same]
    exact patched_settled ih identifier image
  | quirk ctx identifier quirk _ ih =>
    obtain ⟨image, same⟩ := (operation_cases env.toExternals ctx identifier).2.1 quirk
    rw [same]
    exact patched_settled ih identifier image
  | block ctx identifier patcher excludeKext _ ih =>
    obtain ⟨image, same⟩ :=
      (operation_cases env.toExternals ctx identifier).2.2 patcher excludeKext
    rw [same]
    exact patched_settled ih identifier image
  | inject ctx fuel request status after _ done ih =>
    exact prelinkedInjectKext_settled (originProperty_rule env.toExternals) ih
      (requestAllowed_origin env ctx request) done

end Origins

section Refusal
variable (env : Injector)
variable {status : EfiStatus} {request : InjectRequest} {fuel : Nat}

theorem loadExecutable_status {ctx after : PrelinkedContext} {executable : Bytes}
    (done : loadExecutable env ctx executable = (.error status, after)) :
    status ≠ .alreadyStarted := by
  unfold loadExecutable at done
  simp only at done
  repeat' split at done
  all_goals
    injection done with answer
    try injection answer with same
    try cases answer
  all_goals
    subst same
    intro refused
    cases refused

theorem linkLoaded_status {loaded : Option LoadedExecutable} {ctx after : PrelinkedContext}
    (done : linkLoaded env fuel request loaded ctx = some (.error status, after)) :
    status ≠ .alreadyStarted := by
  have other : ∀ reason, reason ≠ EfiStatus.alreadyStarted → ∀ current : PrelinkedContext,
      some ((Except.error reason : Except EfiStatus LinkedRequest), current) =
        some (.error status, after) → status ≠ .alreadyStarted := by
    intro reason different current same
    cases same
    exact different
  unfold linkLoaded at done
  split at done
  · exact other _ (by decide) _ done
  · split at done
    · exact other _ (by decide) _ done
    · split at done
      · exact other _ (by decide) _ done
      · cases loaded with
        | none => cases done
        | some executable =>
          obtain ⟨⟨answer, linked⟩, _, same⟩ := Option.map_eq_some_iff.mp done
          cases answer with
          | none =>
            cases same
            decide
          | some ref => cases same

theorem publishKext_status (ctx : PrelinkedContext) (ref : Option KextRef) (root : XmlNode) :
    (publishKext env ctx ref root).1 ≠ .alreadyStarted := by
  unfold publishKext
  simp only
  repeat' split
  all_goals
    intro refused
    cases refused

theorem commitRequest_status (linked : LinkedRequest) (ctx : PrelinkedContext) :
    (commitRequest env linked ctx).1 ≠ .alreadyStarted := by
  unfold commitRequest
  split
  · exact publishKext_status env ctx none linked.root
  · rename_i ref executable _
    have status : (integrateKext env ctx ref executable).1 ≠ .alreadyStarted := by
      unfold integrateKext
      simp only
      repeat' split
      all_goals
        intro refused
        cases refused
    simp only
    split
    · exact status
    · exact publishKext_status env _ (some ref) linked.root

/-- A kext is refused as present only if the lookup of its identifier found an
entry. -/
theorem prelinkedInjectKext_status {ctx after : PrelinkedContext}
    (missing : (presentKext env ctx request.identifier).1 = none)
    (done : prelinkedInjectKext env fuel request ctx = some (status, after)) :
    status ≠ .alreadyStarted := by
  obtain ⟨⟨answer, middle⟩, ran, same⟩ := Option.map_eq_some_iff.mp done
  cases answer with
  | ok linked =>
    simp only at same
    have committed := commitRequest_status env linked middle
    rw [same] at committed
    exact committed
  | error reason =>
    cases same
    unfold linkRequest at ran
    generalize presentKext env ctx request.identifier = lookup at ran missing
    obtain ⟨known, current⟩ := lookup
    simp only at missing
    subst missing
    simp only [Option.isSome_none, Bool.false_eq_true, if_false] at ran
    split at ran
    · exact linkLoaded_status env ran
    · rename_i executable _
      cases loading : loadExecutable env current executable with
      | mk answer copied =>
        rw [loading] at ran
        cases answer with
        | error other =>
          cases ran
          exact loadExecutable_status env loading
        | ok loaded => exact linkLoaded_status env ran

theorem prelinkedInjectKext_present (request : InjectRequest) {ctx after : PrelinkedContext}
    {ref : KextRef} (found : presentKext env ctx request.identifier = (some ref, after))
    (fuel : Nat) :
    prelinkedInjectKext env fuel request ctx = some (.alreadyStarted, after) := by
  unfold prelinkedInjectKext linkRequest
  rw [found]
  rfl

structure LeftAlone (ctx : PrelinkedContext) (identifier : Text) : Prop where
  injectable : ∀ fuel request status after, request.identifier = some identifier →
    prelinkedInjectKext env fuel request ctx = some (status, after) →
    status ≠ .alreadyStarted
  patch : ∀ patcher, (prelinkedContextApplyPatch env.toExternals ctx identifier
      patcher).1.isError = true ∧
    (prelinkedContextApplyPatch env.toExternals ctx identifier
      patcher).2.collection.prelinked = ctx.collection.prelinked
  block : ∀ exclude block excludeKext, (prelinkedContextBlock env.toExternals ctx
      identifier exclude block excludeKext).1.isError = true ∧
    (prelinkedContextBlock env.toExternals ctx identifier exclude block
      excludeKext).2.collection.prelinked = ctx.collection.prelinked

theorem leftAlone_of_missing {ctx : PrelinkedContext} {identifier : Text}
    (missing : internalCachedPrelinkedKext env.toExternals ctx identifier =
      (none, ctx)) : LeftAlone env ctx identifier := by
  have unknown : patcherInitContextFromPrelinked env.toExternals ctx identifier =
      (none, ctx) := by
    unfold patcherInitContextFromPrelinked
    rw [missing]
  constructor
  · intro fuel request status after passed done
    apply prelinkedInjectKext_status env _ done
    rw [passed, presentKext, missing]
  · intro patcher
    unfold prelinkedContextApplyPatch
    rw [unknown]
    exact ⟨rfl, rfl⟩
  · intro exclude block excludeKext
    unfold prelinkedContextBlock
    rw [unknown]
    exact ⟨rfl, rfl⟩

/-- In every context that is reached, an identifier that is neither in `KextList`
nor injected is left alone exactly if it is not the kernel's and no stub can be
made for it: outside of kernel collections, or without memory. -/
theorem unknown_identifier_left_alone_iff (ctx : PrelinkedContext) (identifier : Text)
    (reached : Reached env ctx) (unlisted : ¬ InKextList ctx identifier.value)
    (uninjected : ∀ ref ∈ ctx.injectedKexts, ∀ kext, ctx.kext ref = some kext →
      kext.identifier.value ≠ identifier.value) :
    LeftAlone env ctx identifier ↔
      identifier.value ≠ ascii kernelIdentifier ∧
        (ctx.isKernelCollection = false ∨
          env.entryPool identifier.value = false) := by
  have settled := reached.settled
  have noListed : listedKext env.toExternals ctx identifier.value = none := by
    cases listed : listedKext env.toExternals ctx identifier.value with
    | none => rfl
    | some kext => exact absurd (listedKext_inKextList env.toExternals listed) unlisted
  have refuses : ∀ ref after, internalCachedPrelinkedKext env.toExternals ctx identifier =
      (some ref, after) → ¬ LeftAlone env ctx identifier := by
    intro ref after found alone
    let request : InjectRequest := ⟨some identifier, identifier, [], identifier, none⟩
    have refused := prelinkedInjectKext_present env request found 0
    exact alone.injectable 0 request .alreadyStarted after rfl refused rfl
  constructor
  · intro alone
    rcases lookup_cases env.toExternals ctx identifier with ⟨ref, _, result⟩ |
        ⟨uncached, nothing, _⟩ | ⟨kext, _, _, result⟩
    · exact absurd alone (refuses ref ctx result)
    · constructor
      · intro kernel
        obtain ⟨kext, present, first, _⟩ := settled.entries 0 settled.started
        have name := first rfl
        rw [kernel] at uncached
        have missed := List.find?_eq_none.mp uncached 0 settled.started
        simp [present, name] at missed
      · unfold freshKext at nothing
        rw [noListed] at nothing
        simp only at nothing
        split at nothing
        · cases nothing
        · rename_i blocked
          by_cases collection : ctx.isKernelCollection = true
          · right
            cases pool : env.entryPool identifier.value with
            | false => rfl
            | true => exact absurd ⟨collection, pool⟩ blocked
          · exact Or.inl (Bool.eq_false_iff.mpr collection)
    · exact absurd alone (refuses _ _ result)
  · rintro ⟨notKernel, noStub⟩
    have noStub' : ¬ (ctx.isKernelCollection = true ∧
        env.entryPool identifier.value = true) := by
      rintro ⟨collection, pool⟩
      rcases noStub with legacy | full
      · rw [legacy] at collection
        cases collection
      · rw [full] at pool
        cases pool
    apply leftAlone_of_missing
    rcases lookup_cases env.toExternals ctx identifier with ⟨ref, cached, _⟩ |
        ⟨_, _, result⟩ | ⟨kext, _, fresh, _⟩
    · exfalso
      obtain ⟨member, kext, present, name⟩ := cachedKext_some cached
      obtain ⟨kext', present', first, origin⟩ := settled.entries ref member
      rw [present] at present'
      cases present'
      by_cases here : ref = 0
      · exact notKernel (name.symm.trans (first here))
      · rcases origin here with listed | injected | stub
        · exact unlisted (name ▸ listed)
        · exact uninjected ref injected kext present name
        · exact noStub' (name ▸ stub)
    · exact result
    · unfold freshKext at fresh
      rw [noListed] at fresh
      simp only at fresh
      rw [if_neg noStub'] at fresh
      cases fresh

theorem sampleBoot_reached (plist : XmlNode) (isKernelCollection : Bool) (kextList : List XmlNode) :
    Reached (sampleInjector plist) (sampleBoot isKernelCollection kextList) :=
  Reached.init (sampleContext isKernelCollection kextList) _ 0 ⟨rfl, rfl, rfl⟩ rfl

def unknownIdentifier : Text := ⟨ascii "x", .caller⟩

theorem sampleBoot_unlisted (isKernelCollection : Bool) :
    ¬ InKextList (sampleBoot isKernelCollection []) unknownIdentifier.value := by
  rintro ⟨node, member, _⟩
  cases member

theorem unknown_identifier_left_alone_legacy :
    LeftAlone (sampleInjector (samplePlist "x" [])) (sampleBoot false []) unknownIdentifier :=
  (unknown_identifier_left_alone_iff (sampleInjector (samplePlist "x" [])) (sampleBoot false [])
    unknownIdentifier (sampleBoot_reached _ false []) (sampleBoot_unlisted false)
    (fun ref member => by cases member)).mpr ⟨by decide, Or.inl rfl⟩

def replaceHead (replace : Bytes) : Patcher := fun kext image =>
  if kext.machContext.innerSize < replace.length then (.notFound, image)
  else (.success,
    overlay image (kext.machContext.fileOffset + kext.machContext.headerOffset) replace)

/-- In a kernel collection an unknown kext is refused as present, and a patch for
it reaches the kernel. -/
theorem unknown_identifier_hits_kernel :
    Reached (sampleInjector (samplePlist "x" [])) (sampleBoot true []) ∧
      ¬ InKextList (sampleBoot true []) unknownIdentifier.value ∧
      (sampleBoot true []).injectedKexts = [] ∧
      (prelinkedInjectKext (sampleInjector (samplePlist "x" [])) 1 (sampleRequest (some "x"))
        (sampleBoot true [])).map Prod.fst = some .alreadyStarted ∧
      (patcherInitContextFromPrelinked sampleExternals (sampleBoot true [])
        unknownIdentifier).1.map PatcherContext.machContext =
          some (sampleBoot true []).innerMachContext ∧
      (prelinkedContextApplyPatch sampleExternals (sampleBoot true []) unknownIdentifier
        (replaceHead [1])).1 = .success ∧
      byteAt (prelinkedContextApplyPatch sampleExternals (sampleBoot true []) unknownIdentifier
        (replaceHead [1])).2.collection.prelinked 0x1000 ≠
          byteAt (sampleBoot true []).collection.prelinked 0x1000 := by
  refine ⟨sampleBoot_reached _ true [], sampleBoot_unlisted true, rfl, ?_, ?_, ?_, ?_⟩
  · decide
  · decide
  · decide
  · decide +kernel

end Refusal

end OpenCore.KextOrigins
