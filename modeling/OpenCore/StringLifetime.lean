import OpenCore.EntryInvariant

/-!
Lifetime of the strings of the cache. The strings of an injected kext are copied into the
pool, those of a listed kext stay with the prelinked plist.
-/

namespace OpenCore.StringLifetime

open Base ByteBuffer Plist PrelinkedKext KextCache PrelinkedInject InjectFrame EntryInvariant

def Lasting (text : Text) : Prop := text.storage ≠ .temporary

def lastingProperty : EntryProperty where
  entry := fun _ _ kext => Lasting kext.identifier ∧
    ∀ version, kext.compatibleVersion = some version → Lasting version
  libraries := fun libraries => ∀ text ∈ plistDictKeys libraries, Lasting text
  node := fun node => ∀ value ∈ dictValues node,
    (∀ text, xmlNodeContent value = some text → Lasting text) ∧
      ∀ text ∈ plistDictKeys value, Lasting text

theorem stub_lasting {text : Text} (lasting : Lasting text) (env : Externals)
    (context : PrelinkedContext) : StubAllowed env lastingProperty context text :=
  fun _ _ _ _ _ _ => ⟨lasting, fun _ present => by cases present⟩

theorem lastingProperty_rule (env : Externals) : EntryRule env lastingProperty := by
  constructor
  · intro _ _ _ _ _ _ _ entry
    exact entry
  · intro _ _ old new name version entry
    simp only [lastingProperty, name, version]
    exact entry
  · intro context identifier ref kext _ nodes listed
    obtain ⟨node, member, origin⟩ := listedKext_from env listed
    have values := nodes node member
    obtain ⟨value, inside, content⟩ := origin.identifier
    refine ⟨⟨(values value inside).1 _ content, ?_⟩, ?_⟩
    · intro version present
      obtain ⟨other, here, text⟩ := origin.compatibleVersion version present
      exact (values other here).1 _ text
    · intro libraries present
      exact (values libraries (origin.bundleLibraries libraries present)).2
  · intro libraries lasting text member context
    exact stub_lasting (lasting text member) env context
  · intro context
    exact stub_lasting (fun same => by cases same) env context
  · intro context ref old new _ _ detached
    obtain ⟨name, _, versions⟩ := detached
    refine ⟨?_, ?_⟩
    · simp [Lasting, name]
    · intro version present
      simp [Lasting, versions version present]
  · intro text _ value member
    cases member

section Run
variable (env : Injector)
variable {context : PrelinkedContext}

def requestLibraries (request : InjectRequest) (loaded : LoadedExecutable)
    (context : PrelinkedContext) : List Text :=
  ((infoPlistRoot env request.infoPlist).bind fun root =>
    (internalNewPrelinkedKext env.toExternals loaded.machContext context.is32Bit
      (appendFields context request (some loaded) root)).bind Kext.bundleLibraries).elim []
    plistDictKeys

/-- No stub is made for this library: it is skipped, cached or listed, the image
is no kernel collection, or there is no memory. -/
def Resolved (env : Externals) (context : PrelinkedContext) (identifier : Bytes) : Prop :=
  context.isKernelCollection = false ∨ isKpi identifier = true ∨
    (cachedKext context identifier).isSome = true ∨
    (listedKext env context identifier).isSome = true ∨
    env.entryPool identifier = false

/-- The libraries of the request are resolved when its kext is linked, which is
after the executable was copied behind the image. -/
def LibrariesResolved (context : PrelinkedContext) (request : InjectRequest) : Prop :=
  ∀ executable loaded copied, request.executable = some executable →
    loadExecutable env context executable = (.ok loaded, copied) →
    ∀ text ∈ requestLibraries env request loaded copied,
      Resolved env.toExternals copied text.value

/-- The contexts of a run of injections with resolved libraries. The strings of
the first one are in the prelinked plist, and callers pass strings of their own. -/
inductive ResolvedRun : PrelinkedContext → Prop where
  | init (blank context : PrelinkedContext) (kernel : KextRef)
      (empty : blank.heap = [] ∧ blank.prelinkedKexts = [] ∧ blank.injectedKexts = [])
      (document : ∀ node ∈ blank.kextList, node = node.storedIn .prelinkedInfo)
      (cached : internalCachedPrelinkedKernel env.toExternals blank =
        (some kernel, context)) :
      ResolvedRun context
  | inject (context : PrelinkedContext) (fuel : Nat) (request : InjectRequest)
      (status : EfiStatus) (after : PrelinkedContext) (before : ResolvedRun context)
      (passed : ∀ text, request.identifier = some text → text.storage = .caller)
      (resolved : LibrariesResolved env context request)
      (done : prelinkedInjectKext env fuel request context = some (status, after)) :
      ResolvedRun after

variable {env}

theorem requestAllowed_lasting {request : InjectRequest}
    (passed : ∀ text, request.identifier = some text → text.storage = .caller)
    (resolved : LibrariesResolved env context request) :
    RequestAllowed env lastingProperty context request := by
  constructor
  · intro text given
    apply stub_lasting
    simp [Lasting, passed text given]
  · intro executable loaded copied root given loading parsed kext made libraries listed text member
      taken uncached unlisted collection pool ref later
    exfalso
    have inside : text ∈ requestLibraries env request loaded copied := by
      simp [requestLibraries, parsed, made, listed, member]
    rcases resolved executable loaded copied given loading text inside with legacy | kpi | cached |
        there | full
    · rw [collection] at legacy
      cases legacy
    · rw [collection, kpi] at taken
      cases taken
    · rw [uncached] at cached
      cases cached
    · rw [unlisted] at there
      cases there
    · rw [pool] at full
      cases full

theorem storedIn_lasting {node : XmlNode} (document : node = node.storedIn .prelinkedInfo) :
    lastingProperty.node node := by
  intro value member
  obtain ⟨entry, inside, same⟩ := List.mem_map.mp member
  rw [document, plistDictChildren, storedIn_children] at inside
  obtain ⟨_, other, pair⟩ := storedIn_entries .prelinkedInfo node.children entry inside
  have stored : value = other.storedIn .prelinkedInfo := by
    rw [← same, pair]
  rw [stored]
  constructor
  · intro text content
    simp [Lasting, storedIn_content .prelinkedInfo content]
  · intro text key
    simp [Lasting, storedIn_keys .prelinkedInfo key]

theorem ResolvedRun.settled (run : ResolvedRun env context) :
    Settled lastingProperty context := by
  induction run with
  | init blank context kernel empty document cached =>
    refine Settled.init empty cached ?_ (fun node member => storedIn_lasting (document node member))
    intro virtualBase
    refine ⟨(fun same => by cases same), ?_⟩
    intro version present same
    cases present
    cases same
  | inject context fuel request status after _ passed resolved done ih =>
    exact prelinkedInjectKext_settled (lastingProperty_rule env.toExternals) ih
      (requestAllowed_lasting passed resolved) done

/-- In every run of injections whose libraries are resolved, no string of a cached
kext is left in a temporary Info.plist. -/
theorem cached_strings_outlive_injection (env : Injector) (context : PrelinkedContext)
    (run : ResolvedRun env context) :
    ∀ ref ∈ context.prelinkedKexts, ∃ kext, context.kext ref = some kext ∧
      kext.identifier.storage ≠ .temporary ∧
      ∀ version, kext.compatibleVersion = some version → version.storage ≠ .temporary :=
  run.settled.entries

def bootContext : PrelinkedContext := sampleBoot true [sampleKextDict "a" []]

def injectedContext (library : String) : PrelinkedContext :=
  (prelinkedInjectKext (sampleInjector (samplePlist "b" [library])) 3 (sampleRequest none)
    bootContext).elim bootContext Prod.snd

/-- The listed kext "a" is cached for "b". -/
theorem cached_strings_outlive_injection_sample :
    (injectedContext "a").prelinkedKexts = [0, 2, 1] ∧
      ∀ ref ∈ (injectedContext "a").prelinkedKexts, ∃ kext,
        (injectedContext "a").kext ref = some kext ∧ kext.identifier.storage ≠ .temporary ∧
        ∀ version, kext.compatibleVersion = some version → version.storage ≠ .temporary := by
  refine ⟨by decide, cached_strings_outlive_injection
    (sampleInjector (samplePlist "b" ["a"])) (injectedContext "a") ?_⟩
  refine ResolvedRun.inject bootContext 3 (sampleRequest none) .success _ ?_ ?_ ?_ rfl
  · exact ResolvedRun.init (sampleContext true [sampleKextDict "a" []]) _ 0 ⟨rfl, rfl, rfl⟩
      (fun node member => by rw [List.mem_singleton.mp member]; rfl) rfl
  · intro text given
    cases given
  · intro executable loaded copied given loading text member
    cases given
    have copiedEq := congrArg Prod.snd loading
    have loadedEq := congrArg Prod.fst loading
    simp only at copiedEq loadedEq
    subst copiedEq
    have first : (loadExecutable (sampleInjector (samplePlist "b" ["a"])) bootContext []).1 =
        .ok ⟨⟨0x2000, 0x1000, 0, 0x1000⟩, 0x2000, 0x1000, 0, 0x3000⟩ := rfl
    rw [first] at loadedEq
    cases loadedEq
    have keys : requestLibraries (sampleInjector (samplePlist "b" ["a"])) (sampleRequest none)
        ⟨⟨0x2000, 0x1000, 0, 0x1000⟩, 0x2000, 0x1000, 0, 0x3000⟩
        (loadExecutable (sampleInjector (samplePlist "b" ["a"])) bootContext []).2 =
          [⟨ascii "a", .temporary⟩] := by
      decide
    rw [keys, List.mem_singleton] at member
    subst member
    exact Or.inr (Or.inr (Or.inr (Or.inl (by decide))))

/-- The stub of an unknown library keeps a pointer into the Info.plist copy. -/
theorem unknown_library_dangles :
    (prelinkedInjectKext (sampleInjector (samplePlist "b" ["x"])) 3 (sampleRequest none)
        bootContext).map Prod.fst = some .success ∧
      ∃ ref ∈ (injectedContext "x").prelinkedKexts,
        ((injectedContext "x").kext ref).map (fun kext => kext.identifier) =
          some ⟨ascii "x", .temporary⟩ :=
  ⟨by decide, 2, by decide, by decide⟩

end Run

end OpenCore.StringLifetime
