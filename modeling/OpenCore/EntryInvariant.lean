import OpenCore.InjectFrame

/-!
A rule for what holds of every entry of the cache. Entries are made in four ways: the
kernel, a kext of `KextList`, a stub and an injected kext.
-/

namespace OpenCore.EntryInvariant

open Base Plist PrelinkedKext KextCache PrelinkedInject InjectFrame List

structure EntryProperty where
  entry : PrelinkedContext → KextRef → Kext → Prop
  libraries : XmlNode → Prop
  node : XmlNode → Prop

def StubAllowed (env : Externals) (inv : EntryProperty) (ctx : PrelinkedContext)
    (text : Text) : Prop :=
  cachedKext ctx text.value = none → listedKext env ctx text.value = none →
    ctx.isKernelCollection = true → env.entryPool text.value = true →
    ∀ ref, ref ≠ 0 → inv.entry ctx ref (stubKext ctx text)

/-- The property holds of whatever is made. The first cell is the kernel's, which
is made before anything else. -/
structure EntryRule (env : Externals) (inv : EntryProperty) : Prop where
  grow : ∀ before after ref kext, before.kextList ⊆ after.kextList →
    before.injectedKexts ⊆ after.injectedKexts →
    after.isKernelCollection = before.isKernelCollection →
    inv.entry before ref kext → inv.entry after ref kext
  stable : ∀ ctx ref old new, new.identifier = old.identifier →
    new.compatibleVersion = old.compatibleVersion →
    inv.entry ctx ref old → inv.entry ctx ref new
  listed : ∀ ctx identifier ref kext, ref ≠ 0 →
    (∀ node ∈ ctx.kextList, inv.node node) →
    listedKext env ctx identifier = some kext →
    inv.entry ctx ref kext ∧
      ∀ libraries, kext.bundleLibraries = some libraries → inv.libraries libraries
  keys : ∀ libraries, inv.libraries libraries → ∀ text ∈ plistDictKeys libraries,
    ∀ ctx, StubAllowed env inv ctx text
  quirk : ∀ ctx, StubAllowed env inv ctx (literal hidFamily)
  injected : ∀ ctx ref old new, ref ≠ 0 → ref ∈ ctx.injectedKexts → Detached old new →
    inv.entry ctx ref new
  published : ∀ text, text.storage = .pooled →
    inv.node (.mk (literal "dict") none (some text) none [])

structure Settled (inv : EntryProperty) (ctx : PrelinkedContext) : Prop where
  valid : Valid ctx
  started : 0 ∈ ctx.prelinkedKexts
  entries : ∀ ref ∈ ctx.prelinkedKexts, ∃ kext, ctx.kext ref = some kext ∧
    inv.entry ctx ref kext
  libraries : ∀ ref kext libraries, ctx.kext ref = some kext →
    kext.bundleLibraries = some libraries → inv.libraries libraries
  nodes : ∀ node ∈ ctx.kextList, inv.node node

section Scan
variable {env : Externals} {inv : EntryProperty} {start current : PrelinkedContext}
variable {root : KextRef} {own : Option XmlNode}

/-- A context some way into the scan of a new kext, which is not in the list yet
and whose libraries are not those of an entry. -/
structure Scanning (inv : EntryProperty) (root : KextRef) (own : Option XmlNode)
    (start current : PrelinkedContext) : Prop where
  frame : current = { start with
    heap := current.heap, prelinkedKexts := current.prelinkedKexts, linkSteps := current.linkSteps }
  present : ∃ kext, current.kext root = some kext
  apart : root ∉ current.prelinkedKexts
  valid : Valid current
  started : 0 ∈ current.prelinkedKexts
  entries : ∀ ref ∈ current.prelinkedKexts, ∃ kext, current.kext ref = some kext ∧
    inv.entry start ref kext
  libraries : ∀ ref kext libraries, current.kext ref = some kext →
    kext.bundleLibraries = some libraries →
    inv.libraries libraries ∨ ref = root ∧ own = some libraries
  kept : Persists start current

theorem Scanning.fresh (scanning : Scanning inv root own start current)
    (env : Externals) (text : Text) :
    listedKext env current text.value = listedKext env start text.value ∧
      stubKext current text = stubKext start text ∧
      current.isKernelCollection = start.isKernelCollection := by
  rw [scanning.frame]
  exact ⟨rfl, rfl, rfl⟩

theorem allocate_cells {ctx : PrelinkedContext} {kext other : Kext} {ref : KextRef}
    (present : (ctx.allocate kext).kext ref = some other) :
    ref < ctx.heap.length ∧ ctx.kext ref = some other ∨ ref = ctx.heap.length ∧ other = kext := by
  by_cases old : ref < ctx.heap.length
  · rw [kext_allocate_old old] at present
    exact Or.inl ⟨old, present⟩
  · have inside := kext_lt present
    simp only [PrelinkedContext.allocate, length_append, length_singleton] at inside
    have new : ref = ctx.heap.length :=
      le_antisymm (Nat.le_of_lt_succ inside) (Nat.le_of_not_lt old)
    subst new
    rw [kext_allocate_new] at present
    exact Or.inr ⟨rfl, (Option.some.inj present).symm⟩

theorem valid_added {ctx : PrelinkedContext} (valid : Valid ctx) (kext : Kext) :
    Valid ((ctx.allocate kext).insert ctx.heap.length) := by
  intro ref member
  have size : ((ctx.allocate kext).insert ctx.heap.length).heap.length = ctx.heap.length + 1 := by
    simp [PrelinkedContext.allocate, PrelinkedContext.insert]
  have member' : ref ∈ ctx.prelinkedKexts ++ [ctx.heap.length] := member
  rw [size]
  rcases mem_append.mp member' with old | new
  · exact Nat.lt_succ_of_lt (valid ref old)
  · rw [mem_singleton.mp new]
    exact Nat.lt_succ_self _

section

variable (scanning : Scanning inv root own start current)
include scanning

theorem Scanning.added {kext : Kext}
    (holds : inv.entry start current.heap.length kext)
    (libraries : ∀ node, kext.bundleLibraries = some node → inv.libraries node) :
    Scanning inv root own start
      ((current.allocate kext).insert current.heap.length) := by
  have valid := scanning.valid
  obtain ⟨own, here⟩ := scanning.present
  have inside := kext_lt here
  refine ⟨?_, ⟨own, ?_⟩, ?_, valid_added valid kext, ?_, ?_, ?_, ?_⟩
  · rw [scanning.frame]
    rfl
  · rw [kext_insert, kext_allocate_old inside]
    exact here
  · intro member
    have member' : root ∈ current.prelinkedKexts ++ [current.heap.length] := member
    rcases mem_append.mp member' with old | new
    · exact scanning.apart old
    · exact absurd (mem_singleton.mp new) (Nat.ne_of_lt inside)
  · exact mem_append_left _ scanning.started
  · intro ref member
    have member' : ref ∈ current.prelinkedKexts ++ [current.heap.length] := member
    rcases mem_append.mp member' with old | new
    · obtain ⟨other, present, entry⟩ := scanning.entries ref old
      refine ⟨other, ?_, entry⟩
      rw [kext_insert, kext_allocate_old (valid ref old)]
      exact present
    · rw [mem_singleton.mp new]
      exact ⟨kext, by simp, holds⟩
  · intro ref other node present listed
    rw [kext_insert] at present
    rcases allocate_cells present with ⟨_, old⟩ | ⟨_, same⟩
    · exact scanning.libraries ref other node old listed
    · subst same
      exact Or.inl (libraries node listed)
  · exact scanning.kept.trans (fun identifier ref found => by
      rw [cachedKext_added valid, found])

theorem Scanning.lookup
    (rule : EntryRule env inv) (nodes : ∀ node ∈ start.kextList, inv.node node)
    (text : Text) (allowed : StubAllowed env inv start text) :
    Scanning inv root own start
      (internalCachedPrelinkedKext env current text).2 := by
  obtain ⟨sameListed, sameStub, sameMode⟩ := scanning.fresh env text
  have later : current.heap.length ≠ 0 :=
    ne_of_gt (Nat.zero_lt_of_lt (scanning.valid 0 scanning.started))
  rcases lookup_cases env current text with ⟨ref, _, result⟩ | ⟨_, _, result⟩ |
      ⟨kext, uncached, fresh, result⟩
  · rw [result]
    exact scanning
  · rw [result]
    exact scanning
  · rw [result]
    unfold freshKext at fresh
    rw [sameListed, sameStub, sameMode] at fresh
    cases listed : listedKext env start text.value with
    | some made =>
      rw [listed] at fresh
      cases fresh
      obtain ⟨entry, libraries⟩ := rule.listed start text.value current.heap.length kext later
        nodes listed
      exact scanning.added entry libraries
    | none =>
      rw [listed] at fresh
      simp only at fresh
      split at fresh
      · rename_i stub
        cases fresh
        have startUncached : cachedKext start text.value = none := by
          cases cached : cachedKext start text.value with
          | none => rfl
          | some ref =>
            rw [scanning.kept _ ref cached] at uncached
            cases uncached
        exact scanning.added (allowed startUncached listed stub.1 stub.2 _ later)
          (fun node present => by cases present)
      · cases fresh

theorem Scanning.kernel (env : Externals) :
    (internalCachedPrelinkedKernel env current).2 = current := by
  have started := scanning.started
  unfold internalCachedPrelinkedKernel
  split
  · rfl
  · rename_i empty
    rw [empty] at started
    cases started

end

theorem Scanning.updated {after : PrelinkedContext} (rule : EntryRule env inv)
    (scanning : Scanning inv root own start current)
    (frame : after = { current with heap := after.heap, linkSteps := after.linkSteps })
    (size : after.heap.length = current.heap.length)
    (cells : ∀ ref kext, after.kext ref = some kext → ∃ old, current.kext ref = some old ∧
      kext.identifier = old.identifier ∧ kext.compatibleVersion = old.compatibleVersion ∧
      (kext.bundleLibraries = old.bundleLibraries ∨ kext.bundleLibraries = none))
    (present : ∀ ref, (after.kext ref).map Kext.identifier =
      (current.kext ref).map Kext.identifier) :
    Scanning inv root own start after := by
  have list : after.prelinkedKexts = current.prelinkedKexts := by rw [frame]
  refine ⟨?_, ?_, ?_, ?_, ?_, ?_, ?_, ?_⟩
  · rw [frame, scanning.frame]
  · obtain ⟨kext, here⟩ := scanning.present
    have names := present root
    rw [here] at names
    obtain ⟨new, found, _⟩ := Option.map_eq_some_iff.mp names
    exact ⟨new, found⟩
  · rw [list]
    exact scanning.apart
  · intro ref member
    rw [list] at member
    rw [size]
    exact scanning.valid ref member
  · rw [list]
    exact scanning.started
  · intro ref member
    rw [list] at member
    obtain ⟨old, found, entry⟩ := scanning.entries ref member
    have names := present ref
    rw [found] at names
    obtain ⟨kext, here, _⟩ := Option.map_eq_some_iff.mp names
    obtain ⟨old', found', name, version, _⟩ := cells ref kext here
    rw [found] at found'
    cases found'
    exact ⟨kext, here, rule.stable start ref old kext name version entry⟩
  · intro ref kext node here libraries
    obtain ⟨old, found, _, _, same | none⟩ := cells ref kext here
    · rw [libraries] at same
      exact scanning.libraries ref old node found same.symm
    · rw [libraries] at none
      cases none
  · intro identifier ref found
    rw [cachedKext_congr list fun ref _ => present ref]
    exact scanning.kept identifier ref found

theorem Scanning.setDependency (scanning : Scanning inv root own start current)
    (rule : EntryRule env inv) (ref index other : Nat) :
    Scanning inv root own start (current.setDependency ref index other) := by
  have same := setDependency_same current ref index other
  refine scanning.updated rule ?_ same.size ?_ ?_
  · rw [same.frame]
  · intro cell kext here
    unfold PrelinkedContext.setDependency at here
    cases found : current.kext ref with
    | none =>
      rw [found] at here
      exact ⟨kext, here, rfl, rfl, Or.inl rfl⟩
    | some old =>
      rw [found] at here
      by_cases own : cell = ref
      · subst own
        simp only [kext_withKext_same (kext_lt found)] at here
        cases here
        exact ⟨old, found, rfl, rfl, Or.inl rfl⟩
      · simp only [kext_withKext_other own] at here
        exact ⟨kext, here, rfl, rfl, Or.inl rfl⟩
  · intro cell
    have cells := congrArg (Option.map Prod.fst) (same.cells cell)
    simpa [Option.map_map, Function.comp_def] using cells

theorem Scanning.clearLibraries (scanning : Scanning inv root own start current)
    (rule : EntryRule env inv) (ref : KextRef) :
    Scanning inv root own start (current.clearLibraries ref) := by
  obtain ⟨frame, size⟩ := clearLibraries_frame current ref
  refine scanning.updated rule ?_ size ?_ (clearLibraries_names current ref)
  · rw [frame]
  · intro cell kext here
    unfold PrelinkedContext.clearLibraries at here
    cases found : current.kext ref with
    | none =>
      rw [found] at here
      exact ⟨kext, here, rfl, rfl, Or.inl rfl⟩
    | some old =>
      rw [found] at here
      by_cases own : cell = ref
      · subst own
        simp only [kext_withKext_same (kext_lt found)] at here
        cases here
        exact ⟨old, found, rfl, rfl, Or.inr rfl⟩
      · simp only [kext_withKext_other own] at here
        exact ⟨kext, here, rfl, rfl, Or.inl rfl⟩

def OwnAllowed (env : Externals) (inv : EntryProperty) (start : PrelinkedContext)
    (own : Option XmlNode) : Prop :=
  ∀ libraries, own = some libraries → ∀ text ∈ plistDictKeys libraries,
    (start.isKernelCollection && isKpi text.value) = false →
    StubAllowed env inv start text

theorem scanning_rule (rule : EntryRule env inv)
    (nodes : ∀ node ∈ start.kextList, inv.node node)
    (allowed : OwnAllowed env inv start own) :
    ScanInvariant env (Scanning inv root own start)
      (StubAllowed env inv start) start.isKernelCollection := by
  constructor
  · intro ctx scanning
    rw [scanning.frame]
  · intro ctx ref kext libraries scanning present listed text member taken
    rcases scanning.libraries ref kext libraries present listed with held | ⟨_, mine⟩
    · exact rule.keys libraries held text member start
    · exact allowed libraries mine text member taken
  · exact rule.quirk start
  · intro ctx text scanning good
    exact scanning.lookup rule nodes text good
  · intro ctx scanning
    rw [scanning.kernel env]
    exact scanning
  · intro ctx ref index other scanning
    exact scanning.setDependency rule ref index other
  · intro ctx ref scanning
    exact scanning.clearLibraries rule ref
  · intro ctx steps scanning
    exact scanning.updated rule rfl rfl
      (fun ref kext here => ⟨kext, here, rfl, rfl, Or.inl rfl⟩) (fun _ => rfl)

end Scan

section Inject
variable {env : Injector} {inv : EntryProperty} {ctx after : PrelinkedContext}
variable {ref : KextRef} {fuel : Nat} {request : InjectRequest}
  {result : Except EfiStatus LinkedRequest} {blank : PrelinkedContext} {status : EfiStatus}
  {kernel : KextRef}

theorem Settled.scanning (settled : Settled inv ctx) (kext : Kext) :
    Scanning inv ctx.heap.length kext.bundleLibraries ctx
      (ctx.allocate kext) := by
  have size : (ctx.allocate kext).heap.length = ctx.heap.length + 1 := by
    simp [PrelinkedContext.allocate]
  have names : ∀ ref ∈ ctx.prelinkedKexts, ((ctx.allocate kext).kext ref).map Kext.identifier =
        (ctx.kext ref).map Kext.identifier := by
    intro ref member
    rw [kext_allocate_old (settled.valid ref member)]
  refine ⟨rfl, ⟨kext, kext_allocate_new⟩, ?_, ?_, settled.started, ?_, ?_, ?_⟩
  · intro member
    exact absurd (settled.valid _ member) (lt_irrefl _)
  · intro ref member
    rw [size]
    exact Nat.lt_succ_of_lt (settled.valid ref member)
  · intro ref member
    obtain ⟨old, present, entry⟩ := settled.entries ref member
    refine ⟨old, ?_, entry⟩
    rw [kext_allocate_old (settled.valid ref member)]
    exact present
  · intro ref other node present listed
    rcases allocate_cells present with ⟨_, old⟩ | ⟨new, same⟩
    · exact Or.inl (settled.libraries ref other node old listed)
    · subst same
      exact Or.inr ⟨new, listed⟩
  · intro identifier ref found
    have list : (ctx.allocate kext).prelinkedKexts = ctx.prelinkedKexts := rfl
    rw [cachedKext_congr list names]
    exact found

theorem Settled.kept (settled : Settled inv ctx)
    (rule : EntryRule env.toExternals inv) (apart : ref ∉ ctx.prelinkedKexts)
    (cells : CellsKept ref ctx after) (lists : ListsKept ctx after)
    (unlinked : ∀ kext, after.kext ref = some kext → kext.bundleLibraries = none) :
    Settled inv after := by
  have elsewhere : ∀ other ∈ ctx.prelinkedKexts, other ≠ ref := by
    intro other member same
    rw [same] at member
    exact apart member
  refine ⟨?_, ?_, ?_, ?_, ?_⟩
  · intro other member
    rw [cells.list] at member
    rw [cells.size]
    exact settled.valid other member
  · rw [cells.list]
    exact settled.started
  · intro other member
    rw [cells.list] at member
    obtain ⟨kext, present, entry⟩ := settled.entries other member
    refine ⟨kext, ?_, ?_⟩
    · rw [cells.cells other (elsewhere other member)]
      exact present
    · exact rule.grow ctx after other kext (by rw [lists.kextList]; exact fun _ => id)
        (by rw [lists.injectedKexts]; exact fun _ => id) lists.isKernelCollection entry
  · intro other kext libraries present listed
    by_cases here : other = ref
    · subst here
      rw [unlinked kext present] at listed
      cases listed
    · rw [cells.cells other here] at present
      exact settled.libraries other kext libraries present listed
  · rw [lists.kextList]
    exact settled.nodes

theorem scan_cleared {env : Externals} {dependency : Bool}
    (done : internalScanPrelinkedKext env fuel ref dependency ctx = some (.success, after)) :
    (after.kext ref).bind Kext.bundleLibraries = none := by
  cases fuel with
  | zero => cases done
  | succ fuel =>
    simp only [internalScanPrelinkedKext] at done
    obtain ⟨⟨kernel, withKernel⟩, _, done⟩ := Option.bind_eq_some_iff.mp done
    simp only at done
    split at done
    · rename_i failed
      cases done
      cases failed
    · obtain ⟨⟨status, middle⟩, scanned, same⟩ := Option.map_eq_some_iff.mp done
      simp only at same
      split at same
      · rename_i failed
        cases same
        cases failed
      · rename_i fine
        have cells : after.kext ref = middle.kext ref := by
          have equal := congrArg Prod.snd same
          simp only at equal
          rw [← equal]
          rfl
        rw [cells]
        unfold scanBundleLibraries at scanned
        cases libraries : (withKernel.kext ref).bind Kext.bundleLibraries with
        | none =>
          rw [libraries] at scanned
          cases scanned
          exact libraries
        | some node =>
          rw [libraries] at scanned
          obtain ⟨⟨inner, last⟩, _, final⟩ := Option.map_eq_some_iff.mp scanned
          simp only at final
          split at final
          · rename_i failed
            cases final
            exact absurd failed fine
          · cases final
            cases found : (last.clearLibraries ref).kext ref with
            | none => rfl
            | some kext =>
              obtain ⟨_, _, _, ⟨different, _⟩ | ⟨_, cleared⟩⟩ :=
                clearLibraries_cell last ref ref found
              · exact absurd rfl different
              · exact cleared

theorem Scanning.settled {start scanned : PrelinkedContext} {root : KextRef}
    {own : Option XmlNode} (scanning : Scanning inv root own start scanned)
    (rule : EntryRule env.toExternals inv)
    (nodes : ∀ node ∈ start.kextList, inv.node node) (kept : OwnCell root scanned after)
    (unlinked : ∀ kext, after.kext root = some kext → kext.bundleLibraries = none) :
    Settled inv after ∧ root ∉ after.prelinkedKexts := by
  have lists := kept.unmoved.listsKept
  have startLists : scanned.kextList = start.kextList ∧
      scanned.injectedKexts = start.injectedKexts ∧
      scanned.isKernelCollection = start.isKernelCollection := by
    rw [scanning.frame]
    exact ⟨rfl, rfl, rfl⟩
  refine ⟨⟨?_, ?_, ?_, ?_, ?_⟩, ?_⟩
  · intro other member
    rw [kept.kept.list] at member
    rw [kept.kept.size]
    exact scanning.valid other member
  · rw [kept.kept.list]
    exact scanning.started
  · intro other member
    rw [kept.kept.list] at member
    obtain ⟨kext, present, entry⟩ := scanning.entries other member
    refine ⟨kext, ?_, ?_⟩
    · rw [kept.kept.cells other (fun same => scanning.apart (same ▸ member))]
      exact present
    · exact rule.grow start after other kext
        (by rw [lists.kextList, startLists.1]; exact fun _ => id)
        (by rw [lists.injectedKexts, startLists.2.1]; exact fun _ => id)
        (lists.isKernelCollection.trans startLists.2.2) entry
  · intro other kext libraries present listed
    by_cases here : other = root
    · subst here
      rw [unlinked kext present] at listed
      cases listed
    · rw [kept.kept.cells other here] at present
      rcases scanning.libraries other kext libraries present listed with held | ⟨same, _⟩
      · exact held
      · exact absurd same here
  · rw [lists.kextList, startLists.1]
    exact nodes
  · rw [kept.kept.list]
    exact scanning.apart

structure Pending (ctx : PrelinkedContext) (ref : KextRef) : Prop where
  later : ref ≠ 0
  apart : ref ∉ ctx.prelinkedKexts
  cell : ∃ old new, ctx.kext ref = some new ∧ Detached old new ∧ new.bundleLibraries = none

def LibrariesAllowed (env : Injector) (inv : EntryProperty)
    (ctx : PrelinkedContext) (executable : LoadedExecutable) (root : XmlNode) : Prop :=
  ∀ kext, internalNewPrelinkedKext env.toExternals executable.machContext ctx.is32Bit
      root = some kext →
    OwnAllowed env.toExternals inv ctx kext.bundleLibraries

theorem internalLinkPrelinkedKext_settled {executable : LoadedExecutable}
    {root : XmlNode} {result : Option KextRef} (rule : EntryRule env.toExternals inv)
    (settled : Settled inv ctx)
    (allowed : LibrariesAllowed env inv ctx executable root)
    (done : internalLinkPrelinkedKext env fuel ctx executable root = some (result, after)) :
    Settled inv after ∧ ∀ ref, result = some ref → Pending after ref := by
  rcases internalLinkPrelinkedKext_cases env done with ⟨none, same⟩ |
      ⟨kext, status, scanned, made, ran, kept, outcome⟩
  · rw [same, none]
    exact ⟨settled, fun ref clash => by cases clash⟩
  · have scanning := scan_keeps env.toExternals
      (scanning_rule rule settled.nodes (allowed kext made)) fuel _ _ _ _ _
      (settled.scanning kext) ran
    rcases outcome with ⟨none, freed⟩ | ⟨linked, success, new, present, detached⟩
    · obtain ⟨kept', _⟩ := scanning.settled rule settled.nodes kept (fun kext here => by
        rw [freed] at here
        cases here)
      rw [none]
      exact ⟨kept', fun ref clash => by cases clash⟩
    · subst success
      obtain ⟨old, found⟩ := scanning.present
      have cleared : new.bundleLibraries = none := by
        have dropped := scan_cleared ran
        rw [found] at dropped
        have same := detached.2.1
        rw [found] at same
        exact same.trans dropped
      obtain ⟨kept', apart⟩ := scanning.settled rule settled.nodes kept (fun kext here => by
        rw [present] at here
        cases here
        exact cleared)
      refine ⟨kept', ?_⟩
      intro ref same
      rw [linked] at same
      cases same
      exact ⟨ne_of_gt (Nat.zero_lt_of_lt (settled.valid 0 settled.started)), apart, _, new,
        present, detached, cleared⟩

theorem withContainer_cell {old new : Kext}
    (present : ctx.kext ref = some new) (detached : Detached old new)
    (cleared : new.bundleLibraries = none) :
    ∃ placed, (withContainer ctx ref).kext ref = some placed ∧ Detached old placed ∧
      placed.bundleLibraries = none := by
  unfold withContainer
  rw [present]
  exact ⟨_, kext_withKext_same (kext_lt present), detached, cleared⟩

theorem integrateKext_pending (env : Injector)
    (executable : LoadedExecutable) (pending : Pending ctx ref) :
    Pending (integrateKext env ctx ref executable).2 ref := by
  obtain ⟨cells, _⟩ := integrateKext_kept env ctx ref executable
  obtain ⟨old, new, present, detached, cleared⟩ := pending.cell
  refine ⟨pending.later, ?_, old, ?_⟩
  · rw [cells.list]
    exact pending.apart
  · unfold integrateKext
    simp only
    split
    · generalize indexed : ({ advance ctx executable.alignedSize with
        collection := _, written := _ } : PrelinkedContext) = moved
      have here : (writeAll moved executable.kextOffset (env.kcKextApplyFileDelta moved
          executable.machContext executable.kextOffset).2).kext ref = some new := by
        rw [writeAll_painted moved executable.kextOffset _, ← indexed]
        exact present
      split
      · exact ⟨new, here, detached, cleared⟩
      · exact withContainer_cell here detached cleared
    · exact ⟨new, present, detached, cleared⟩

theorem integrateKext_settled (executable : LoadedExecutable)
    (rule : EntryRule env.toExternals inv) (settled : Settled inv ctx)
    (pending : Pending ctx ref) :
    Settled inv (integrateKext env ctx ref executable).2 := by
  obtain ⟨cells, lists⟩ := integrateKext_kept env ctx ref executable
  obtain ⟨_, new, present, _, cleared⟩ := (integrateKext_pending env executable pending).cell
  refine settled.kept rule pending.apart cells lists ?_
  intro kext here
  rw [present] at here
  cases here
  exact cleared

theorem publishKext_settled {ref : Option KextRef} {root : XmlNode}
    (rule : EntryRule env.toExternals inv) (settled : Settled inv ctx)
    (pending : ∀ entry, ref = some entry → Pending ctx entry)
    (done : publishKext env ctx ref root = (status, after)) :
    Settled inv after := by
  rcases publishKext_cases env done with ⟨stored, same⟩ | ⟨stored, text, same, pooled⟩
  · rw [same]
    cases ref with
    | none =>
      obtain ⟨valid, started, entries, libraries, nodes⟩ := settled
      exact ⟨valid, started, fun other member => by
        obtain ⟨kext, present, entry⟩ := entries other member
        exact ⟨kext, present, rule.grow ctx _ other kext (fun _ => id) (fun _ => id) rfl
          entry⟩, libraries, nodes⟩
    | some entry =>
      refine settled.kept rule (pending entry rfl).apart ?_ ⟨rfl, rfl, rfl⟩ ?_
      · obtain ⟨list, size, cells⟩ := free_cellsKept { ctx with pooledBuffers := stored } entry
        exact ⟨list, size, cells⟩
      · intro kext here
        rw [freeOption, kext_free] at here
        cases here
  · have fresh : ∀ other ∈ ref.toList, other ≠ 0 ∧ ∃ old new, ctx.kext other = some new ∧
        Detached old new := by
      intro other member
      have waiting := pending other (by simpa using member)
      obtain ⟨old, new, present, detached, _⟩ := waiting.cell
      exact ⟨waiting.later, old, new, present, detached⟩
    rw [same]
    refine ⟨?_, ?_, ?_, settled.libraries, ?_⟩
    · intro other member
      rcases mem_append.mp member with old | new
      · exact settled.valid other old
      · obtain ⟨_, _, _, present, _⟩ := fresh other new
        have inside : other < ctx.heap.length := kext_lt present
        exact inside
    · exact mem_append_left _ settled.started
    · intro other member
      rcases mem_append.mp member with old | new
      · obtain ⟨kext, present, entry⟩ := settled.entries other old
        exact ⟨kext, present, rule.grow ctx _ other kext
          (subset_append_left _ _) (subset_append_left _ _) rfl entry⟩
      · obtain ⟨later, old, kext, present, detached⟩ := fresh other new
        exact ⟨kext, present, rule.injected _ other old kext later
          (mem_append_right _ new) detached⟩
    · intro node member
      rcases mem_append.mp member with old | new
      · exact settled.nodes node old
      · rw [mem_singleton.mp new]
        exact rule.published text pooled

theorem Settled.painted (settled : Settled inv ctx)
    (rule : EntryRule env.toExternals inv) (painted : Painted ctx after) :
    Settled inv after := by
  have outside : ctx.heap.length ∉ ctx.prelinkedKexts :=
    fun member => absurd (settled.valid _ member) (lt_irrefl _)
  refine settled.kept rule outside (painted.cellsKept _) painted.unmoved.listsKept ?_
  intro kext here
  have inside := kext_lt here
  rw [(painted.cellsKept 0).size] at inside
  exact absurd inside (lt_irrefl _)

theorem Settled.lookup (settled : Settled inv ctx)
    (rule : EntryRule env.toExternals inv) {text : Text}
    (allowed : StubAllowed env.toExternals inv ctx text) :
    Settled inv (internalCachedPrelinkedKext env.toExternals ctx text).2 := by
  rcases lookup_cases env.toExternals ctx text with ⟨ref, _, result⟩ | ⟨_, _, result⟩ |
      ⟨kext, uncached, fresh, result⟩
  · rw [result]
    exact settled
  · rw [result]
    exact settled
  · rw [result]
    have later : ctx.heap.length ≠ 0 :=
      ne_of_gt (Nat.zero_lt_of_lt (settled.valid 0 settled.started))
    have holds : inv.entry ctx ctx.heap.length kext ∧
        ∀ libraries, kext.bundleLibraries = some libraries → inv.libraries libraries := by
      unfold freshKext at fresh
      cases listed : listedKext env.toExternals ctx text.value with
      | some made =>
        rw [listed] at fresh
        cases fresh
        exact rule.listed ctx text.value _ kext later settled.nodes listed
      | none =>
        rw [listed] at fresh
        simp only at fresh
        split at fresh
        · rename_i stub
          cases fresh
          exact ⟨allowed uncached listed stub.1 stub.2 _ later, fun _ present => by cases present⟩
        · cases fresh
    refine ⟨valid_added settled.valid kext, mem_append_left _ settled.started, ?_, ?_,
      settled.nodes⟩
    · intro ref member
      have member' : ref ∈ ctx.prelinkedKexts ++ [ctx.heap.length] := member
      rcases mem_append.mp member' with old | new
      · obtain ⟨other, present, entry⟩ := settled.entries ref old
        refine ⟨other, ?_, rule.grow ctx _ ref other (fun _ => id) (fun _ => id) rfl entry⟩
        rw [kext_insert, kext_allocate_old (settled.valid ref old)]
        exact present
      · rw [mem_singleton.mp new]
        exact ⟨kext, by simp, rule.grow ctx _ _ kext (fun _ => id) (fun _ => id) rfl holds.1⟩
    · intro ref other libraries present listed
      rw [kext_insert] at present
      rcases allocate_cells present with ⟨_, old⟩ | ⟨_, same⟩
      · exact settled.libraries ref other libraries old listed
      · subst same
        exact holds.2 libraries listed

section

variable {env : Externals}
  (empty : blank.heap = [] ∧ blank.prelinkedKexts = [] ∧ blank.injectedKexts = [])
  (cached : internalCachedPrelinkedKernel env blank = (some kernel, ctx))
include empty cached

/-- `PrelinkedContextInit` leaves the kernel as the only entry. -/
theorem kernel_first :
    ∃ virtualBase, ctx = { blank with
      heap := [some (kernelKext blank virtualBase)], prelinkedKexts := [0] } := by
  obtain ⟨heap, list, _⟩ := empty
  unfold internalCachedPrelinkedKernel at cached
  rw [list] at cached
  simp only at cached
  split at cached
  · cases cached
  · rename_i virtualBase _
    split at cached
    · cases cached
      refine ⟨virtualBase, ?_⟩
      simp [PrelinkedContext.insert, PrelinkedContext.allocate, heap, list]
    · cases cached

theorem Settled.init (first : ∀ virtualBase, inv.entry ctx 0 (kernelKext blank virtualBase))
    (nodes : ∀ node ∈ blank.kextList, inv.node node) : Settled inv ctx := by
  obtain ⟨virtualBase, same⟩ := kernel_first empty cached
  have cell : ∀ ref kext, ctx.kext ref = some kext →
      ref = 0 ∧ kext = kernelKext blank virtualBase := by
    intro ref kext present
    rw [same] at present
    cases ref with
    | zero => exact ⟨rfl, (Option.some.inj present).symm⟩
    | succ ref => simp [PrelinkedContext.kext, List.getD] at present
  have here : ctx.kext 0 = some (kernelKext blank virtualBase) := by
    rw [same]
    rfl
  have list : ctx.prelinkedKexts = [0] := by rw [same]
  refine ⟨?_, ?_, ?_, ?_, ?_⟩
  · intro ref member
    rw [list, mem_singleton] at member
    subst member
    exact kext_lt here
  · rw [list]
    exact mem_singleton.mpr rfl
  · intro ref member
    rw [list, mem_singleton] at member
    subst member
    exact ⟨_, here, first virtualBase⟩
  · intro ref kext libraries present listed
    obtain ⟨_, made⟩ := cell ref kext present
    subst made
    cases listed
  · rw [same]
    exact nodes

end

/-- The lookups of a request make no stub the property excludes. The libraries
are those of its Info.plist, looked up once the executable has been copied. -/
structure RequestAllowed (env : Injector) (inv : EntryProperty)
    (ctx : PrelinkedContext) (request : InjectRequest) : Prop where
  identifier : ∀ text, request.identifier = some text →
    StubAllowed env.toExternals inv ctx text
  libraries : ∀ executable loaded copied root, request.executable = some executable →
    loadExecutable env ctx executable = (.ok loaded, copied) →
    infoPlistRoot env request.infoPlist = some root →
    LibrariesAllowed env inv copied loaded
      (appendFields copied request (some loaded) root)

theorem linkLoaded_settled {loaded : Option LoadedExecutable}
    (rule : EntryRule env.toExternals inv) (settled : Settled inv ctx)
    (allowed : ∀ root executable, infoPlistRoot env request.infoPlist = some root →
      loaded = some executable → LibrariesAllowed env inv ctx executable
        (appendFields ctx request loaded root))
    (done : linkLoaded env fuel request loaded ctx = some (result, after)) :
    Settled inv after ∧ ∀ linked ref executable, result = .ok linked →
      linked.entry = some (ref, executable) → Pending after ref := by
  have stay : ∀ status, some (Except.error status, ctx) = some (result, after) →
      Settled inv after ∧ ∀ linked ref executable, result = .ok linked →
        linked.entry = some (ref, executable) → Pending after ref := by
    intro status same
    cases same
    exact ⟨settled, fun _ _ _ clash => by cases clash⟩
  unfold linkLoaded at done
  split at done
  · exact stay _ done
  · split at done
    · exact stay _ done
    · rename_i root parsed
      split at done
      · exact stay _ done
      · cases loaded with
        | none =>
          cases done
          refine ⟨settled, ?_⟩
          intro linked ref executable same entry
          cases same
          cases entry
        | some executable =>
          obtain ⟨⟨answer, linked⟩, ran, same⟩ := Option.map_eq_some_iff.mp done
          obtain ⟨kept, pending⟩ := internalLinkPrelinkedKext_settled rule settled
            (allowed root executable parsed rfl) ran
          cases answer with
          | none =>
            cases same
            exact ⟨kept, fun _ _ _ clash => by cases clash⟩
          | some ref =>
            cases same
            refine ⟨kept, ?_⟩
            intro request other code same entry
            cases same
            cases entry
            exact pending ref rfl

theorem presentKext_none (env : Injector) (ctx : PrelinkedContext)
    (identifier : Option Text) (missing : (presentKext env ctx identifier).1 = none) :
    (presentKext env ctx identifier).2 = ctx := by
  cases identifier with
  | none => rfl
  | some text =>
    rw [presentKext] at missing ⊢
    rcases lookup_cases env.toExternals ctx text with ⟨ref, _, result⟩ |
        ⟨_, _, result⟩ | ⟨kext, _, _, result⟩
    · rw [result] at missing
      cases missing
    · rw [result]
    · rw [result] at missing
      cases missing

section

variable (rule : EntryRule env.toExternals inv) (settled : Settled inv ctx)
  (allowed : RequestAllowed env inv ctx request)
include rule settled allowed

theorem linkRequest_settled (done : linkRequest env fuel request ctx = some (result, after)) :
    Settled inv after ∧ ∀ linked ref executable, result = .ok linked →
      linked.entry = some (ref, executable) → Pending after ref := by
  unfold linkRequest at done
  have unchanged := presentKext_none env ctx request.identifier
  have looked : Settled inv (presentKext env ctx request.identifier).2 := by
    cases passed : request.identifier with
    | none => exact settled
    | some text => exact settled.lookup rule (allowed.identifier text passed)
  generalize presentKext env ctx request.identifier = lookup at done unchanged looked
  obtain ⟨known, current⟩ := lookup
  simp only at done unchanged looked
  cases known with
  | some ref =>
    cases done
    exact ⟨looked, fun _ _ _ clash => by cases clash⟩
  | none =>
    have same := unchanged rfl
    subst same
    simp only [Option.isSome_none, Bool.false_eq_true, if_false] at done
    split at done
    · exact linkLoaded_settled rule settled (fun _ _ _ clash => by cases clash) done
    · rename_i executable passed
      have painted := loadExecutable_painted env current executable
      cases loading : loadExecutable env current executable with
      | mk answer copied =>
        rw [loading] at done painted
        have kept := settled.painted rule painted
        cases answer with
        | error status =>
          cases done
          exact ⟨kept, fun _ _ _ clash => by cases clash⟩
        | ok loaded =>
          refine linkLoaded_settled rule kept ?_ done
          intro root code parsed same
          cases same
          exact allowed.libraries executable loaded copied root passed loading parsed

theorem prelinkedInjectKext_settled
    (done : prelinkedInjectKext env fuel request ctx = some (status, after)) :
    Settled inv after := by
  obtain ⟨⟨answer, middle⟩, ran, same⟩ := Option.map_eq_some_iff.mp done
  obtain ⟨kept, pending⟩ := linkRequest_settled rule settled allowed ran
  cases answer with
  | error reason =>
    cases same
    exact kept
  | ok linked =>
    simp only [commitRequest] at same
    cases entry : linked.entry with
    | none =>
      rw [entry] at same
      exact publishKext_settled rule kept (fun _ clash => by cases clash) same
    | some pair =>
      obtain ⟨ref, executable⟩ := pair
      rw [entry] at same
      have waiting := pending linked ref executable rfl entry
      have integrated := integrateKext_settled executable rule kept waiting
      have stillWaiting := integrateKext_pending env executable waiting
      simp only at same
      split at same
      · cases same
        exact integrated
      · exact publishKext_settled rule integrated (fun other chosen => by
          cases chosen
          exact stillWaiting) same

end

end Inject

end OpenCore.EntryInvariant
