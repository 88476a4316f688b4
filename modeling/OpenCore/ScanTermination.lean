import OpenCore.KextScan
import Mathlib.Data.Set.Finite.List

/-!
When the dependency scan ends. Along a cycle of followed dependencies every
scan waits for the next one and no depth is enough; without such a cycle the
followed dependencies are finitely many and some depth is.
-/

namespace OpenCore.ScanTermination

open Base ByteBuffer Plist PrelinkedKext KextCache KextScan Reachability List

section Cycles
variable {env : Externals} {base current : PrelinkedContext} {identifier : Bytes}
variable {last : Bytes} {libraries : XmlNode} {scan : Scan}

theorem FollowedIn.mem {dependencies : List Bytes} {other : Bytes}
    (followed : FollowedIn env base dependencies other) : other ∈ dependencies := by
  obtain ⟨before, after, split, _⟩ := followed
  rw [split]
  simp

theorem Sound.acc (sound : Sound env base identifier) :
    Acc (fun next node => Follows env base node next) identifier := by
  induction sound with
  | intro identifier _ _ ih =>
    constructor
    intro next followed
    exact ih next (FollowedIn.mem followed)

def Diverges (env : Externals) (base : PrelinkedContext) (scan : Scan) (identifier : Bytes) :
    Prop :=
  ∀ ctx ref, Evolved env base ctx → cachedKext ctx identifier = some ref →
    scan ref ctx = none

-- The dependencies before the endless one are sound, so their scans succeed if
-- they end at all, and the loop gets to the endless one.
theorem scanLibraries_diverges (contract : Contract env base scan)
    (succeed : AllSucceed env) (ref : KextRef)
    (diverges : Diverges env base scan last) (keys : List Text) (before after : List Bytes)
    (index : Nat) (current : PrelinkedContext)
    (split : dependenciesIn env base keys = before ++ last :: after)
    (room : index + before.length < maxKextDependencies)
    (sound : ∀ earlier ∈ before, Sound env base earlier) (evolved : Evolved env base current) :
    scanLibraries env scan ref keys index current = none := by
  induction keys generalizing before index current with
  | nil => simp [dependenciesIn] at split
  | cons text rest ih =>
    rw [dependenciesIn_cons] at split
    unfold scanLibraries
    cases taken : current.isKernelCollection && isKpi text.value with
    | true =>
      have skipped : resolveLibrary env base text.value = none := by
        rw [evolved.collection] at taken
        rw [resolveLibrary, if_pos taken]
      rw [skipped] at split
      rw [if_pos rfl]
      exact ih before index current split room sound evolved
    | false =>
      rw [if_neg (by simp)]
      obtain ⟨looked, _, answer⟩ := evolved.dependency text taken
      cases result : dependencyKext env current text with
      | mk answered middle =>
        rw [result] at looked answer
        cases resolved : resolveLibrary env base text.value with
        | none =>
          rw [resolved] at split answer
          simp only at answer
          subst answer
          exact ih before index middle split room sound looked
        | some found =>
          rw [resolved] at split answer
          obtain ⟨dependency, same, cached⟩ := answer
          simp only at same
          subst same
          simp only [Option.toList_some, singleton_append] at split
          cases inserted : internalInsertPrelinkedKextDependency scan ref index dependency
              middle with
          | none => simp only [inserted, Option.bind_none]
          | some outcome =>
            obtain ⟨status, next⟩ := outcome
            obtain ⟨evolved', _, _, succeeds⟩ :=
              insertDependency_contract contract looked cached inserted
            cases before with
            | nil =>
              -- This is the endless one, so nothing was inserted.
              simp only [nil_append, List.cons.injEq] at split
              have stuck := diverges middle dependency looked (split.1 ▸ cached)
              have place : ¬ index ≥ maxKextDependencies := by
                simpa using Nat.not_le_of_lt room
              simp [internalInsertPrelinkedKextDependency, if_neg place, stuck]
                at inserted
            | cons first others =>
              simp only [cons_append, List.cons.injEq] at split
              obtain ⟨same, split⟩ := split
              subst same
              rw [length_cons] at room
              have fine := succeeds succeed (sound found (by simp)) (by omega)
              subst fine
              simp only [inserted, Option.bind_some, EfiStatus.isError,
                bne_self_eq_false, Bool.false_eq_true, if_false]
              exact ih others (index + 1) next split (by omega)
                (fun earlier member => sound earlier (by simp [member])) evolved'

theorem scanBundleLibraries_diverges (contract : Contract env base scan)
    (succeed : AllSucceed env) {ref : KextRef}
    (diverges : Diverges env base scan last) (evolved : Evolved env base current)
    (present : (current.kext ref).bind Kext.bundleLibraries = some libraries)
    (followed : FollowedIn env base
      (dependenciesIn env base (plistDictKeys libraries)) last) :
    scanBundleLibraries env scan ref current = none := by
  obtain ⟨before, after, split, room, sound⟩ := followed
  unfold scanBundleLibraries
  rw [present]
  simp only [Option.map_eq_none_iff]
  exact scanLibraries_diverges contract succeed ref diverges _ before after 1 current split
    (by omega) sound evolved

theorem scan_diverges_of_followed (succeed : AllSucceed env) (fuel : Nat) (ref : KextRef)
    (dependency : Bool) (evolved : Evolved env base current)
    (diverges : Diverges env base (fun other ctx =>
      internalScanPrelinkedKext env fuel other true ctx) last)
    (present : (current.kext ref).bind Kext.bundleLibraries = some libraries)
    (followed : FollowedIn env base
      (dependenciesIn env base (plistDictKeys libraries)) last) :
    internalScanPrelinkedKext env (fuel + 1) ref dependency current = none := by
  simp only [internalScanPrelinkedKext]
  rcases scanKernel_same evolved fuel ref with ⟨_, none⟩ | ⟨status, withKernel, ran, same, all⟩
  · rw [none, Option.bind_none]
  · rw [ran, Option.bind_some, all succeed]
    have kept : (withKernel.kext ref).bind Kext.bundleLibraries = some libraries := by
      rw [← present]
      exact same.libraries ref
    have stuck := scanBundleLibraries_diverges (scan_contract fuel true) succeed diverges
      (evolved.same same) kept followed
    simp only [EfiStatus.isError, bne_self_eq_false, Bool.false_eq_true, if_false,
      Option.map_eq_none_iff]
    exact stuck

theorem scan_diverges (succeed : AllSucceed env) (fuel : Nat) (dependency : Bool)
    (endless : Endless (Follows env base) identifier) :
    Diverges env base (fun other ctx =>
      internalScanPrelinkedKext env fuel other dependency ctx) identifier := by
  induction fuel generalizing identifier dependency with
  | zero => exact fun _ _ _ _ => rfl
  | succ fuel ih =>
    intro ctx ref evolved cached
    obtain ⟨next, followed, rest⟩ := endless.next
    cases present : (ctx.kext ref).bind Kext.bundleLibraries with
    | none =>
      have sound := evolved.sound_of_empty cached present
      exact absurd endless (not_endless_of_acc (Sound.acc sound))
    | some libraries =>
      have listed := evolved.listed cached present
      rw [Follows, dependenciesOf, listed] at followed
      exact scan_diverges_of_followed succeed fuel ref dependency evolved (ih true rest)
        present followed

end Cycles

section Finite
variable (env : Externals) (ctx : PrelinkedContext)

def targets : List Bytes :=
  ascii hidFamily :: (ctx.heap.flatMap fun cell => cell.elim [] keysOf) ++
    ctx.kextList.flatMap fun node =>
      (dictValues node).flatMap fun value => (plistDictKeys value).map Text.value

theorem librariesOf_targets {identifier key : Bytes}
    (listed : key ∈ librariesOf env ctx identifier) : key ∈ targets ctx := by
  unfold librariesOf at listed
  have heapKeys : ∀ ref kext, ctx.kext ref = some kext → key ∈ keysOf kext → key ∈ targets ctx := by
    intro ref kext present member
    have cell : some kext ∈ ctx.heap := by
      have inside := kext_lt present
      have value : ctx.heap[ref] = some kext := by
        simpa [PrelinkedContext.kext, List.getD, getElem?_eq_getElem inside] using present
      exact value ▸ getElem_mem inside
    simp only [targets, cons_append, mem_cons, mem_append, mem_flatMap]
    exact Or.inr (Or.inl ⟨some kext, cell, member⟩)
  cases cached : cachedKext ctx identifier with
  | some ref =>
    rw [cached] at listed
    cases present : ctx.kext ref with
    | none => simp [present] at listed
    | some kext =>
      simp only [present, Option.elim_some] at listed
      exact heapKeys ref kext present listed
  | none =>
    rw [cached] at listed
    cases made : listedKext env ctx identifier with
    | none => simp [made] at listed
    | some kext =>
      simp only [made, Option.elim_some, keysOf] at listed
      obtain ⟨node, member, origin⟩ := listedKext_from env made
      cases libraries : kext.bundleLibraries with
      | none => simp [libraries] at listed
      | some dict =>
        simp only [libraries, Option.elim_some] at listed
        simp only [targets, cons_append, mem_cons, mem_append, mem_flatMap]
        exact Or.inr (Or.inr ⟨node, member, dict, origin.bundleLibraries dict libraries, listed⟩)

theorem resolveLibrary_cases {key found : Bytes}
    (resolved : resolveLibrary env ctx key = some found) :
    found = key ∨ found = ascii hidFamily := by
  unfold resolveLibrary at resolved
  split at resolved
  · cases resolved
  · split at resolved
    · exact Or.inl (Option.some.inj resolved).symm
    · split at resolved
      · exact Or.inr (Option.some.inj resolved).symm
      · cases resolved

theorem follows_targets (identifier next : Bytes)
    (followed : Follows env ctx identifier next) : next ∈ targets ctx := by
  obtain ⟨key, listed, resolved⟩ := mem_filterMap.mp (FollowedIn.mem followed)
  rcases resolveLibrary_cases env ctx resolved with same | family
  · subst same
    exact librariesOf_targets env ctx listed
  · subst family
    simp [targets]

end Finite

section Links
variable {left right : Externals} (ctx : PrelinkedContext)

-- The graph does not look at the link steps.
theorem sound_link (same : right = { left with linkStep := right.linkStep }) {identifier : Bytes}
    (sound : Sound left ctx identifier) : Sound right ctx identifier := by
  induction sound with
  | intro identifier fits _ ih =>
    have edges : dependenciesOf right ctx identifier = dependenciesOf left ctx identifier := by
      rw [same]
      rfl
    refine Sound.intro identifier ?_ ?_
    · rw [edges]
      exact fits
    · rw [edges]
      exact ih

theorem follows_link (same : right = { left with linkStep := right.linkStep }) :
    FollowedIn right ctx = FollowedIn left ctx := by
  funext dependencies other
  have back : left = { right with linkStep := left.linkStep } := by rw [same]
  apply propext
  constructor
  · rintro ⟨before, after, split, room, sound⟩
    exact ⟨before, after, split, room, fun earlier member =>
      sound_link ctx back (sound earlier member)⟩
  · rintro ⟨before, after, split, room, sound⟩
    exact ⟨before, after, split, room, fun earlier member =>
      sound_link ctx same (sound earlier member)⟩

theorem reachesCycle_link (left right : Externals) (ctx : PrelinkedContext) (ref : KextRef)
    (same : right = { left with linkStep := right.linkStep }) :
    ReachesCycle right ctx ref ↔ ReachesCycle left ctx ref := by
  have roots : rootDependencies right ctx ref = rootDependencies left ctx ref := by
    rw [same]
    rfl
  have edges : Follows right ctx = Follows left ctx := by
    funext identifier other
    have own : dependenciesOf right ctx identifier = dependenciesOf left ctx identifier := by
      rw [same]
      rfl
    rw [Follows, Follows, own, follows_link ctx same]
  rw [ReachesCycle, ReachesCycle, roots, edges, follows_link ctx same]

end Links

section Result
variable (env : Externals) (ctx : PrelinkedContext) (ref : KextRef) (dependency : Bool)

theorem rootDependencies_eq {libraries : XmlNode}
    (present : (ctx.kext ref).bind Kext.bundleLibraries = some libraries) :
    rootDependencies env ctx ref = dependenciesIn env ctx (plistDictKeys libraries) := by
  obtain ⟨kext, found, node⟩ := Option.bind_eq_some_iff.mp present
  simp [rootDependencies, dependenciesIn, found, keysOf, node]

theorem scan_ends_of_no_cycle (first : KernelFirst ctx) (ends : ¬ ReachesCycle env ctx ref) :
    ∃ fuel result, internalScanPrelinkedKext env fuel ref dependency ctx = some result := by
  apply scan_ends ref dependency (Evolved.refl first)
  intro libraries present other followed
  rw [← rootDependencies_eq env ctx ref present] at followed
  exact ends_of_acc (acc_of_not_endless (finite_toSet (targets ctx)) (follows_targets env ctx) fun endless =>
    ends ⟨other, followed, endless⟩)

theorem scan_diverges_of_cycle (first : KernelFirst ctx) (succeed : AllSucceed env)
    (cycle : ReachesCycle env ctx ref) (fuel : Nat) :
    internalScanPrelinkedKext env fuel ref dependency ctx = none := by
  obtain ⟨next, followed, endless⟩ := cycle
  cases fuel with
  | zero => rfl
  | succ fuel =>
    cases present : (ctx.kext ref).bind Kext.bundleLibraries with
    | none =>
      have empty : rootDependencies env ctx ref = [] := by
        cases cell : ctx.kext ref with
        | none => simp [rootDependencies, cell]
        | some kext =>
          have none : kext.bundleLibraries = none := by simpa [cell] using present
          simp [rootDependencies, cell, keysOf, none]
      have member := FollowedIn.mem followed
      rw [empty] at member
      cases member
    | some libraries =>
      rw [rootDependencies_eq env ctx ref present] at followed
      exact scan_diverges_of_followed succeed fuel ref dependency (Evolved.refl first)
        (scan_diverges succeed fuel true endless) present followed

/-- The scan of a kext ends, whatever its link steps answer, exactly if it gets
to no cycle of dependencies. -/
theorem internal_scan_prelinked_kext_terminates_iff (first : KernelFirst ctx) :
    (∀ linkStep, ∃ fuel result, internalScanPrelinkedKext
      { env with linkStep := linkStep } fuel ref dependency ctx = some result) ↔
    ¬ ReachesCycle env ctx ref := by
  constructor
  · intro ends cycle
    obtain ⟨fuel, result, ran⟩ := ends fun _ _ _ => .success
    have stuck := scan_diverges_of_cycle { env with linkStep := fun _ _ _ => .success }
      ctx ref dependency first (fun _ _ _ => rfl)
      ((reachesCycle_link env _ ctx ref rfl).mpr cycle) fuel
    rw [stuck] at ran
    cases ran
  · intro ends linkStep
    apply scan_ends_of_no_cycle _ ctx ref dependency first
    rw [reachesCycle_link env _ ctx ref rfl]
    exact ends

def lookedUp (kextList : List XmlNode) (identifier : String) : PrelinkedContext :=
  (internalCachedPrelinkedKext sampleExternals (sampleBoot true kextList) (literal identifier)).2

def chainContext : PrelinkedContext :=
  lookedUp [sampleKextDict "a" ["b"], sampleKextDict "b" []] "a"

theorem chainContext_first : KernelFirst chainContext := by
  refine ⟨?_, 0, _, by decide, rfl, rfl⟩
  unfold Valid
  decide

theorem internal_scan_prelinked_kext_terminates_chain :
    KernelFirst chainContext ∧ ∃ fuel result,
      internalScanPrelinkedKext sampleExternals fuel 1 false chainContext = some result := by
  refine ⟨chainContext_first, ?_⟩
  have ends := (internal_scan_prelinked_kext_terminates_iff sampleExternals chainContext 1 false
    chainContext_first).mpr ?_
  · exact ends fun _ _ _ => .success
  · rintro ⟨first, followed, endless⟩
    have roots : rootDependencies sampleExternals chainContext 1 = [ascii "b"] := by
      decide
    have leaf : dependenciesOf sampleExternals chainContext (ascii "b") = [] := by
      decide
    have member := FollowedIn.mem followed
    rw [roots, mem_singleton] at member
    subst member
    obtain ⟨next, step, _⟩ := endless.next
    have none := FollowedIn.mem step
    rw [leaf] at none
    cases none

def loopContext : PrelinkedContext := lookedUp [sampleKextDict "a" ["a"]] "a"

/-- A kext that lists itself is scanned without end. -/
theorem scan_of_self_dependency :
    KernelFirst loopContext ∧ cachedKext loopContext (ascii "a") = some 1 ∧
      ¬ ∃ fuel result,
        internalScanPrelinkedKext sampleExternals fuel 1 false loopContext = some result := by
  have first : KernelFirst loopContext := by
    refine ⟨?_, 0, _, by decide, rfl, rfl⟩
    unfold Valid
    decide
  have roots : rootDependencies sampleExternals loopContext 1 = [ascii "a"] := by
    decide
  have own : dependenciesOf sampleExternals loopContext (ascii "a") = [ascii "a"] := by
    decide
  have inList : FollowedIn sampleExternals loopContext [ascii "a"] (ascii "a") :=
    ⟨[], [], rfl, by decide, by simp⟩
  have step : Follows sampleExternals loopContext (ascii "a") (ascii "a") := by
    rw [Follows, own]
    exact inList
  have cycle : ReachesCycle sampleExternals loopContext 1 := by
    refine ⟨ascii "a", ?_, ascii "a", .refl, .single step⟩
    rw [roots]
    exact inList
  refine ⟨first, by decide, ?_⟩
  rintro ⟨fuel, result, ran⟩
  rw [scan_diverges_of_cycle sampleExternals loopContext 1 false first (fun _ _ _ => rfl) cycle
    fuel] at ran
  cases ran

end Result

end OpenCore.ScanTermination
