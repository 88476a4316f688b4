import OpenCore.KextCache
import OpenCore.Reachability

/-!
Termination of the dependency scan. The graph is the one the libraries form before the scan:
a lookup answers by identifier, so a node is an identifier. A kext takes fifteen libraries
besides the kernel, and a failed one ends the scan of its dependents, so only some edges are
followed.
-/

namespace OpenCore.KextScan

open Base ByteBuffer Plist PrelinkedKext KextCache Reachability List

def keysOf (kext : Kext) : List Bytes :=
  (kext.bundleLibraries.elim [] plistDictKeys).map Text.value

section Graph
variable (env : Externals) (ctx : PrelinkedContext)

def available (identifier : Bytes) : Bool :=
  (cachedKext ctx identifier).isSome ||
    (freshKext env ctx ⟨identifier, .literal⟩).isSome

def resolveLibrary (identifier : Bytes) : Option Bytes :=
  if ctx.isKernelCollection && isKpi identifier then none
  else if available env ctx identifier then some identifier
  else if identifier = ascii hidSystem ∧ available env ctx (ascii hidFamily) then
    some (ascii hidFamily)
  else none

def librariesOf (identifier : Bytes) : List Bytes :=
  match cachedKext ctx identifier with
  | some ref => (ctx.kext ref).elim [] keysOf
  | none => (listedKext env ctx identifier).elim [] keysOf

def dependenciesOf (identifier : Bytes) : List Bytes :=
  (librariesOf env ctx identifier).filterMap (resolveLibrary env ctx)

def rootDependencies (ref : KextRef) : List Bytes :=
  ((ctx.kext ref).elim [] keysOf).filterMap (resolveLibrary env ctx)

inductive Sound : Bytes → Prop where
  | intro (identifier : Bytes)
      (fits : (dependenciesOf env ctx identifier).length < maxKextDependencies)
      (below : ∀ other ∈ dependenciesOf env ctx identifier, Sound other) :
      Sound identifier

/-- An entry of a list of dependencies that the scan gets to: it has a place for
it, and the entries before it are sound. -/
def FollowedIn (dependencies : List Bytes) (other : Bytes) : Prop :=
  ∃ before after, dependencies = before ++ other :: after ∧
    before.length + 1 < maxKextDependencies ∧ ∀ earlier ∈ before, Sound env ctx earlier

def Follows (identifier other : Bytes) : Prop :=
  FollowedIn env ctx (dependenciesOf env ctx identifier) other

def ReachesCycle (ref : KextRef) : Prop :=
  ∃ first, FollowedIn env ctx (rootDependencies env ctx ref) first ∧
    Endless (Follows env ctx) first

end Graph

structure KernelFirst (ctx : PrelinkedContext) : Prop where
  valid : Valid ctx
  kernel : ∃ kernel kext, ctx.prelinkedKexts.head? = some kernel ∧
    ctx.kext kernel = some kext ∧ kext.bundleLibraries = none

section Evolution
variable {env : Externals} {base current : PrelinkedContext}

/-- A context some way into a scan that started at `base`: entries were added
as lookups asked for them, and libraries were dropped where all are sound. -/
structure Evolved (env : Externals) (base current : PrelinkedContext) : Prop where
  frame : current = { base with
    heap := current.heap, prelinkedKexts := current.prelinkedKexts, linkSteps := current.linkSteps }
  first : KernelFirst current
  kept : Persists base current
  known : ∀ identifier, (cachedKext current identifier).isSome →
    available env base identifier = true
  libraries : ∀ identifier ref kext, cachedKext current identifier = some ref →
    current.kext ref = some kext →
    keysOf kext = librariesOf env base identifier ∨
      kext.bundleLibraries = none ∧ Sound env base identifier

theorem Evolved.refl (first : KernelFirst base) : Evolved env base base := by
  refine ⟨rfl, first, fun _ _ found => found, ?_, ?_⟩
  · intro identifier found
    simp [available, found]
  · intro identifier ref kext found present
    left
    simp [librariesOf, found, present]

theorem freshKext_isSome (env : Externals) (ctx : PrelinkedContext) (text : Text)
    (storage : Storage) :
    (freshKext env ctx text).isSome = (freshKext env ctx ⟨text.value, storage⟩).isSome := by
  unfold freshKext
  simp only
  split
  · rfl
  · split <;> rfl

variable (evolved : Evolved env base current)
include evolved

theorem Evolved.fresh (text : Text) :
    freshKext env current text = freshKext env base text := by
  rw [evolved.frame]
  rfl

theorem Evolved.collection :
    current.isKernelCollection = base.isKernelCollection := by
  rw [evolved.frame]

omit evolved in
theorem KernelFirst.same {before after : PrelinkedContext} (first : KernelFirst before)
    (same : SameEntries before after) : KernelFirst after := by
  have list : after.prelinkedKexts = before.prelinkedKexts := by rw [same.frame]
  obtain ⟨kernel, kext, head, present, empty⟩ := first.kernel
  obtain ⟨kext', found, _, libraries⟩ := same.symm.cell present
  refine ⟨?_, kernel, kext', by rw [list]; exact head, found, libraries.trans empty⟩
  intro ref member
  rw [list] at member
  rw [same.size]
  exact first.valid ref member

theorem Evolved.same {after : PrelinkedContext}
    (same : SameEntries current after) : Evolved env base after := by
  refine ⟨?_, evolved.first.same same, ?_, ?_, ?_⟩
  · rw [same.frame, evolved.frame]
  · exact evolved.kept.trans same.persists
  · intro identifier found
    rw [same.cached] at found
    exact evolved.known identifier found
  · intro identifier ref kext found present
    rw [same.cached] at found
    obtain ⟨old, oldPresent, _, libraries⟩ := same.cell present
    have known := evolved.libraries identifier ref old found oldPresent
    simpa only [keysOf, libraries] using known

omit evolved in
theorem KernelFirst.clear (first : KernelFirst current) (ref : KextRef) :
    KernelFirst (current.clearLibraries ref) := by
  obtain ⟨frame, size⟩ := clearLibraries_frame current ref
  have list : (current.clearLibraries ref).prelinkedKexts = current.prelinkedKexts := by rw [frame]
  obtain ⟨kernel, kext, head, present, empty⟩ := first.kernel
  have names := clearLibraries_names current ref kernel
  rw [present] at names
  obtain ⟨kext', found, _⟩ := Option.map_eq_some_iff.mp names
  refine ⟨?_, kernel, kext', by rw [list]; exact head, found, ?_⟩
  · intro cell member
    rw [list] at member
    rw [size]
    exact first.valid cell member
  · obtain ⟨old, oldPresent, _, ⟨_, libraries⟩ | ⟨_, cleared⟩⟩ :=
      clearLibraries_cell current ref kernel found
    · rw [present] at oldPresent
      cases oldPresent
      exact libraries.symm.trans empty
    · exact cleared

theorem Evolved.clear (ref : KextRef)
    (sound : ∀ identifier, cachedKext current identifier = some ref → Sound env base identifier) :
    Evolved env base (current.clearLibraries ref) := by
  obtain ⟨frame, _⟩ := clearLibraries_frame current ref
  refine ⟨?_, evolved.first.clear ref, ?_, ?_, ?_⟩
  · rw [frame, evolved.frame]
  · exact evolved.kept.trans (clearLibraries_persists current ref)
  · intro identifier found
    rw [clearLibraries_cached] at found
    exact evolved.known identifier found
  · intro identifier cell kext found present
    rw [clearLibraries_cached] at found
    obtain ⟨old, oldPresent, _, ⟨_, libraries⟩ | ⟨same, cleared⟩⟩ :=
      clearLibraries_cell current ref cell present
    · have known := evolved.libraries identifier cell old found oldPresent
      simpa only [keysOf, libraries] using known
    · subst same
      exact Or.inr ⟨cleared, sound identifier found⟩

omit evolved in
theorem added_persists (valid : Valid current) (kext : Kext) :
    Persists current ((current.allocate kext).insert current.heap.length) := by
  intro identifier ref found
  rw [cachedKext_added valid, found]

theorem Evolved.added {text : Text} {kext : Kext} (uncached : cachedKext current text.value = none)
    (fresh : freshKext env current text = some kext) :
    Evolved env base ((current.allocate kext).insert current.heap.length) := by
  have name := freshKext_named env fresh
  have valid := evolved.first.valid
  have baseUncached : cachedKext base text.value = none := by
    cases cached : cachedKext base text.value with
    | none => rfl
    | some ref =>
      rw [evolved.kept _ ref cached] at uncached
      cases uncached
  have made : available env base text.value = true := by
    have some := freshKext_isSome env base text .literal
    rw [← evolved.fresh, fresh] at some
    simp [available, ← some]
  have keys : keysOf kext = librariesOf env base text.value := by
    have origin := fresh
    rw [evolved.fresh] at origin
    unfold freshKext at origin
    cases listed : listedKext env base text.value with
    | some made =>
      rw [listed] at origin
      cases origin
      simp [librariesOf, baseUncached, listed]
    | none =>
      rw [listed] at origin
      simp only at origin
      split at origin
      · cases origin
        simp [librariesOf, baseUncached, listed, keysOf, stubKext]
      · cases origin
  refine ⟨?_, ⟨?_, ?_⟩, ?_, ?_, ?_⟩
  · rw [evolved.frame]
    rfl
  · intro ref member
    have member' : ref ∈ current.prelinkedKexts ++ [current.heap.length] := member
    have size : ((current.allocate kext).insert current.heap.length).heap.length =
        current.heap.length + 1 := by
      simp [PrelinkedContext.allocate, PrelinkedContext.insert]
    rw [size]
    rcases mem_append.mp member' with old | new
    · exact Nat.lt_succ_of_lt (valid ref old)
    · rw [mem_singleton.mp new]
      exact Nat.lt_succ_self _
  · obtain ⟨kernel, kernelKext, head, present, empty⟩ := evolved.first.kernel
    refine ⟨kernel, kernelKext, ?_, ?_, empty⟩
    · show (current.prelinkedKexts ++ [current.heap.length]).head? = some kernel
      rw [head?_append, head]
      rfl
    · rw [kext_insert, kext_allocate_old (kext_lt present)]
      exact present
  · exact evolved.kept.trans (added_persists valid kext)
  · intro identifier found
    rw [cachedKext_added valid] at found
    cases cached : cachedKext current identifier with
    | some ref => exact evolved.known identifier (by simp [cached])
    | none =>
      simp only [cached] at found
      split at found
      · rename_i same
        rw [← same, name]
        exact made
      · cases found
  · intro identifier ref other found present
    rw [cachedKext_added valid] at found
    cases cached : cachedKext current identifier with
    | some old =>
      simp only [cached] at found
      cases found
      obtain ⟨member, _⟩ := cachedKext_some cached
      rw [kext_insert, kext_allocate_old (valid ref member)] at present
      exact evolved.libraries identifier ref other cached present
    | none =>
      simp only [cached] at found
      split at found
      · rename_i same
        cases found
        rw [kext_insert, kext_allocate_new] at present
        cases present
        left
        rw [keys, ← same, name]
      · cases found

theorem Evolved.lookup (text : Text) :
    Evolved env base (internalCachedPrelinkedKext env current text).2 ∧
      Persists current (internalCachedPrelinkedKext env current text).2 ∧
      (if available env base text.value then
        ∃ ref, (internalCachedPrelinkedKext env current text).1 = some ref ∧
          cachedKext (internalCachedPrelinkedKext env current text).2 text.value = some ref
      else (internalCachedPrelinkedKext env current text).1 = none) := by
  rcases lookup_cases env current text with ⟨ref, cached, result⟩ |
      ⟨uncached, nothing, result⟩ | ⟨kext, uncached, fresh, result⟩
  · rw [result, if_pos (evolved.known _ (by simp [cached]))]
    exact ⟨evolved, fun _ _ found => found, ref, rfl, cached⟩
  · have missing : available env base text.value = false := by
      cases cached : cachedKext base text.value with
      | some ref =>
        rw [evolved.kept _ ref cached] at uncached
        cases uncached
      | none =>
        have none := freshKext_isSome env base text .literal
        rw [← evolved.fresh, nothing] at none
        simp [available, cached, ← none]
    rw [result, missing]
    exact ⟨evolved, fun _ _ found => found, by simp⟩
  · have after := evolved.added uncached fresh
    have found : cachedKext ((current.allocate kext).insert current.heap.length) text.value =
        some current.heap.length := by
      rw [cachedKext_added evolved.first.valid, uncached]
      simp [freshKext_named env fresh]
    rw [result, if_pos (after.known _ (by simp [found]))]
    exact ⟨after, added_persists evolved.first.valid kext, _, rfl, found⟩

theorem Evolved.dependency (text : Text)
    (taken : (current.isKernelCollection && isKpi text.value) = false) :
    Evolved env base (dependencyKext env current text).2 ∧
      Persists current (dependencyKext env current text).2 ∧
      (match resolveLibrary env base text.value with
      | some identifier => ∃ ref, (dependencyKext env current text).1 = some ref ∧
          cachedKext (dependencyKext env current text).2 identifier = some ref
      | none => (dependencyKext env current text).1 = none) := by
  obtain ⟨after, persists, answer⟩ := evolved.lookup text
  rw [evolved.collection] at taken
  unfold dependencyKext resolveLibrary
  rw [if_neg (by simp [taken])]
  cases result : internalCachedPrelinkedKext env current text with
  | mk found next =>
    rw [result] at after persists answer
    by_cases there : available env base text.value = true
    · rw [if_pos there] at answer
      obtain ⟨ref, same, cached⟩ := answer
      simp only at same
      subst same
      simp only [there, if_true]
      exact ⟨after, persists, ref, rfl, cached⟩
    · rw [if_neg there] at answer
      simp only at answer
      subst answer
      simp only [there, Bool.false_eq_true, if_false, internalGetQuirkDependencyKext]
      by_cases quirk : text.value = ascii hidSystem
      · obtain ⟨later, further, answer⟩ := after.lookup (literal hidFamily)
        rw [literal_value] at answer
        by_cases family : available env base (ascii hidFamily) = true
        · rw [if_pos family] at answer
          rw [if_pos quirk, if_pos ⟨quirk, family⟩]
          exact ⟨later, persists.trans further, answer⟩
        · rw [if_neg family] at answer
          rw [if_pos quirk, if_neg (by simp [family])]
          exact ⟨later, persists.trans further, answer⟩
      · rw [if_neg quirk, if_neg (by simp [quirk])]
        exact ⟨after, persists, rfl⟩

end Evolution

section Partial
variable {env : Externals} {base current : PrelinkedContext}
variable {identifier : Bytes} {status : EfiStatus} {ref : KextRef} {scan : Scan}
  {after : PrelinkedContext}

def AllSucceed (env : Externals) : Prop :=
  ∀ ref dependency steps, env.linkStep ref dependency steps = .success

theorem success_of_noError (fine : ¬ status.isError = true) :
    status = .success := by
  cases status <;> simp_all [EfiStatus.isError]

theorem Evolved.kernelCell (evolved : Evolved env base current) :
    ∃ kernel, internalCachedPrelinkedKernel env current = (some kernel, current) ∧
      (current.kext kernel).bind Kext.bundleLibraries = none := by
  obtain ⟨kernel, kext, head, present, empty⟩ := evolved.first.kernel
  refine ⟨kernel, ?_, by simp [present, empty]⟩
  unfold internalCachedPrelinkedKernel
  cases list : current.prelinkedKexts with
  | nil => simp [list] at head
  | cons first rest =>
    rw [list] at head
    cases head
    rfl

theorem scan_kernel {kernel : KextRef}
    (first : internalCachedPrelinkedKernel env current = (some kernel, current))
    (empty : (current.kext kernel).bind Kext.bundleLibraries = none) (fuel : Nat) :
    internalScanPrelinkedKext env (fuel + 1) kernel true current =
      some (env.linkStep kernel true current.linkSteps,
        { current with linkSteps := current.linkSteps + 1 }) := by
  simp [internalScanPrelinkedKext, scanKernel, first, scanBundleLibraries, empty, EfiStatus.isError]

/-- The scan of the kernel dependency changes no entry; it can only run out of
depth at the very end. -/
theorem scanKernel_same (evolved : Evolved env base current) (fuel : Nat) (ref : KextRef) :
    (fuel = 0 ∧ scanKernel env (fun other ctx =>
      internalScanPrelinkedKext env fuel other true ctx) ref current = none) ∨
    ∃ status after, scanKernel env (fun other ctx =>
        internalScanPrelinkedKext env fuel other true ctx) ref current = some (status, after) ∧
      SameEntries current after ∧ (AllSucceed env → status = .success) := by
  obtain ⟨kernel, first, empty⟩ := evolved.kernelCell
  unfold scanKernel
  rw [first]
  simp only
  by_cases self : kernel = ref
  · rw [if_pos self]
    exact Or.inr ⟨.success, current, rfl, ⟨rfl, rfl, fun _ => rfl⟩, fun _ => rfl⟩
  · rw [if_neg self]
    unfold internalInsertPrelinkedKextDependency
    rw [if_neg (by decide)]
    cases fuel with
    | zero => exact Or.inl ⟨rfl, rfl⟩
    | succ fuel =>
      beta_reduce
      rw [scan_kernel first empty fuel, Option.map_some]
      right
      have linked := linkSteps_same current (current.linkSteps + 1)
      by_cases failed : (env.linkStep kernel true current.linkSteps).isError = true
      · refine ⟨_, _, congrArg some (if_pos failed), linked, ?_⟩
        intro all
        exact all _ _ _
      · refine ⟨_, _, congrArg some (if_neg failed), ?_, fun _ => rfl⟩
        have set := setDependency_same { current with linkSteps := current.linkSteps + 1 }
          ref 0 kernel
        refine ⟨?_, set.size.trans linked.size, fun cell => (set.cells cell).trans
          (linked.cells cell)⟩
        rw [set.frame]

def Contract (env : Externals) (base : PrelinkedContext) (scan : Scan) : Prop :=
  ∀ ctx identifier ref status after, Evolved env base ctx →
    cachedKext ctx identifier = some ref → scan ref ctx = some (status, after) →
    Evolved env base after ∧ Persists ctx after ∧
      (status = .success → Sound env base identifier) ∧
      (AllSucceed env → Sound env base identifier → status = .success)

def dependenciesIn (env : Externals) (base : PrelinkedContext) (keys : List Text) :
    List Bytes :=
  (keys.map Text.value).filterMap (resolveLibrary env base)

theorem dependenciesIn_cons (text : Text) (rest : List Text) :
    dependenciesIn env base (text :: rest) =
      (resolveLibrary env base text.value).toList ++ dependenciesIn env base rest := by
  unfold dependenciesIn
  rw [map_cons, filterMap_cons]
  cases resolveLibrary env base text.value with
  | none => rfl
  | some identifier => rfl

theorem insertDependency_contract (contract : Contract env base scan)
    {ref index dependency : Nat} (evolved : Evolved env base current)
    (cached : cachedKext current identifier = some dependency)
    (done : internalInsertPrelinkedKextDependency scan ref index dependency current =
      some (status, after)) :
    Evolved env base after ∧ Persists current after ∧
      (status = .success → Sound env base identifier ∧ index < maxKextDependencies) ∧
      (AllSucceed env → Sound env base identifier → index < maxKextDependencies →
        status = .success) := by
  unfold internalInsertPrelinkedKextDependency at done
  by_cases full : index ≥ maxKextDependencies
  · rw [if_pos full] at done
    cases done
    refine ⟨evolved, fun _ _ found => found, ?_, ?_⟩
    · intro success
      cases success
    · intro _ _ room
      exact absurd room (Nat.not_lt_of_ge full)
  · rw [if_neg full] at done
    obtain ⟨⟨inner, middle⟩, ran, same⟩ := Option.map_eq_some_iff.mp done
    obtain ⟨evolved', persists, sound, succeeds⟩ := contract current identifier dependency inner
      middle evolved cached ran
    simp only at same
    by_cases failed : inner.isError = true
    · rw [if_pos failed] at same
      cases same
      refine ⟨evolved', persists, ?_, ?_⟩
      · intro success
        subst success
        cases failed
      · intro all isSound _
        exact succeeds all isSound
    · rw [if_neg failed] at same
      cases same
      have set := setDependency_same middle ref index dependency
      refine ⟨evolved'.same set, persists.trans set.persists, ?_, fun _ _ _ => rfl⟩
      intro _
      exact ⟨sound (success_of_noError failed), Nat.lt_of_not_ge full⟩

-- Induction on the keys left: the index counts the dependencies inserted so
-- far, so success means that all of them are sound and have found a place.
theorem scanLibraries_contract (contract : Contract env base scan)
    (ref : KextRef) (keys : List Text) (index : Nat) (current after : PrelinkedContext)
    (status : EfiStatus) (evolved : Evolved env base current) (room : index ≤ maxKextDependencies)
    (done : scanLibraries env scan ref keys index current = some (status, after)) :
    Evolved env base after ∧ Persists current after ∧ (status = .success →
        (∀ other ∈ dependenciesIn env base keys, Sound env base other) ∧
        index + (dependenciesIn env base keys).length ≤ maxKextDependencies) ∧ (AllSucceed env →
        (∀ other ∈ dependenciesIn env base keys, Sound env base other) →
        index + (dependenciesIn env base keys).length ≤ maxKextDependencies →
        status = .success) := by
  induction keys generalizing index current with
  | nil =>
    cases done
    exact ⟨evolved, fun _ _ found => found,
      fun _ => ⟨by simp [dependenciesIn], by simpa [dependenciesIn] using room⟩, fun _ _ _ => rfl⟩
  | cons text rest ih =>
    rw [dependenciesIn_cons]
    unfold scanLibraries at done
    cases taken : current.isKernelCollection && isKpi text.value with
    | true =>
      have skipped : resolveLibrary env base text.value = none := by
        rw [evolved.collection] at taken
        rw [resolveLibrary, if_pos taken]
      rw [taken, if_pos rfl] at done
      rw [skipped]
      exact ih index current evolved room done
    | false =>
      rw [taken, if_neg (by simp)] at done
      obtain ⟨looked, found, answer⟩ := evolved.dependency text taken
      cases result : dependencyKext env current text with
      | mk answered middle =>
        rw [result] at done looked found answer
        cases resolved : resolveLibrary env base text.value with
        | none =>
          rw [resolved] at answer
          simp only at answer
          subst answer
          obtain ⟨final, persists, rest⟩ := ih index middle looked room done
          exact ⟨final, found.trans persists, rest⟩
        | some identifier =>
          rw [resolved] at answer
          obtain ⟨dependency, same, cached⟩ := answer
          simp only at same
          subst same
          obtain ⟨⟨inner, inserted⟩, ran, rested⟩ := Option.bind_eq_some_iff.mp done
          obtain ⟨evolved', persists, sound, succeeds⟩ :=
            insertDependency_contract contract looked cached ran
          simp only at rested
          by_cases failed : inner.isError = true
          · rw [if_pos failed] at rested
            cases rested
            refine ⟨evolved', found.trans persists, ?_, ?_⟩
            · intro success
              subst success
              cases failed
            · intro all isSound fits
              simp only [Option.toList_some, length_append, length_singleton] at fits
              exact succeeds all (isSound identifier (by simp)) (by omega)
          · rw [if_neg failed] at rested
            obtain ⟨here, place⟩ := sound (success_of_noError failed)
            obtain ⟨final, further, allSound, allSucceed⟩ := ih (index + 1) inserted
              evolved' place rested
            refine ⟨final, found.trans (persists.trans further), ?_, ?_⟩
            · intro success
              obtain ⟨below, fits⟩ := allSound success
              constructor
              · intro other member
                rcases mem_append.mp member with own | later
                · rw [Option.toList_some, mem_singleton] at own
                  exact own ▸ here
                · exact below other later
              · simp only [Option.toList_some, length_append, length_singleton]
                omega
            · intro all isSound fits
              simp only [Option.toList_some, length_append, length_singleton] at fits
              exact allSucceed all (fun other member => isSound other (by simp [member]))
                (by omega)

theorem sound_of_librariesOf (keys : List Text)
    (listed : librariesOf env base identifier = keys.map Text.value)
    (below : ∀ other ∈ dependenciesIn env base keys, Sound env base other)
    (fits : 1 + (dependenciesIn env base keys).length ≤ maxKextDependencies) :
    Sound env base identifier := by
  have same : dependenciesOf env base identifier = dependenciesIn env base keys := by
    rw [dependenciesOf, listed]
    rfl
  refine Sound.intro identifier ?_ ?_
  · rw [same]
    omega
  · rw [same]
    exact below

theorem sound_fits {keys : List Text}
    (listed : librariesOf env base identifier = keys.map Text.value)
    (sound : Sound env base identifier) :
    (∀ other ∈ dependenciesIn env base keys, Sound env base other) ∧
      1 + (dependenciesIn env base keys).length ≤ maxKextDependencies := by
  have same : dependenciesOf env base identifier = dependenciesIn env base keys := by
    rw [dependenciesOf, listed]
    rfl
  cases sound with
  | intro _ fits below =>
    rw [same] at fits below
    exact ⟨below, by omega⟩

theorem Evolved.sound_of_empty (evolved : Evolved env base current)
    (cached : cachedKext current identifier = some ref)
    (empty : (current.kext ref).bind Kext.bundleLibraries = none) :
    Sound env base identifier := by
  obtain ⟨_, kext, present, _⟩ := cachedKext_some cached
  have none : kext.bundleLibraries = none := by simpa [present] using empty
  rcases evolved.libraries identifier ref kext cached present with listed | ⟨_, sound⟩
  · apply sound_of_librariesOf []
    · rw [← listed]
      simp [keysOf, none]
    · simp [dependenciesIn]
    · simp [dependenciesIn, maxKextDependencies]
  · exact sound

theorem Evolved.listed (evolved : Evolved env base current) {libraries : XmlNode}
    (cached : cachedKext current identifier = some ref)
    (some : (current.kext ref).bind Kext.bundleLibraries = some libraries) :
    librariesOf env base identifier = (plistDictKeys libraries).map Text.value := by
  obtain ⟨kext, present, node⟩ := Option.bind_eq_some_iff.mp some
  rcases evolved.libraries identifier ref kext cached present with listed | ⟨none, _⟩
  · rw [← listed]
    simp [keysOf, node]
  · rw [node] at none
    cases none

theorem scanBundleLibraries_contract (contract : Contract env base scan)
    (evolved : Evolved env base current) (cached : cachedKext current identifier = some ref)
    (done : scanBundleLibraries env scan ref current = some (status, after)) :
    Evolved env base after ∧ Persists current after ∧
      (status = .success → Sound env base identifier) ∧
      (AllSucceed env → Sound env base identifier → status = .success) := by
  unfold scanBundleLibraries at done
  cases libraries : (current.kext ref).bind Kext.bundleLibraries with
  | none =>
    rw [libraries] at done
    cases done
    exact ⟨evolved, fun _ _ found => found,
      fun _ => evolved.sound_of_empty cached libraries, fun _ _ => rfl⟩
  | some node =>
    rw [libraries] at done
    have listed := evolved.listed cached libraries
    obtain ⟨⟨inner, middle⟩, ran, same⟩ := Option.map_eq_some_iff.mp done
    obtain ⟨evolved', persists, sound, succeeds⟩ := scanLibraries_contract contract ref _ 1
      current middle inner evolved (by decide) ran
    simp only at same
    by_cases failed : inner.isError = true
    · rw [if_pos failed] at same
      cases same
      refine ⟨evolved', persists, ?_, ?_⟩
      · intro success
        subst success
        cases failed
      · intro all isSound
        obtain ⟨below, fits⟩ := sound_fits listed isSound
        exact succeeds all below fits
    · rw [if_neg failed] at same
      cases same
      obtain ⟨below, fits⟩ := sound (success_of_noError failed)
      have own : Sound env base identifier := sound_of_librariesOf _ listed below fits
      refine ⟨evolved'.clear ref ?_, persists.trans (clearLibraries_persists middle ref),
        fun _ => own, fun _ _ => rfl⟩
      intro other found
      have same : other = identifier := cachedKext_injective found (persists _ _ cached)
      exact same ▸ own

theorem scan_contract (fuel : Nat) (dependency : Bool) :
    Contract env base (fun ref ctx =>
      internalScanPrelinkedKext env fuel ref dependency ctx) := by
  induction fuel generalizing dependency with
  | zero =>
    intro ctx identifier ref status after _ _ done
    cases done
  | succ fuel ih =>
    intro ctx identifier ref status after evolved cached done
    simp only [internalScanPrelinkedKext] at done
    rcases scanKernel_same evolved fuel ref with ⟨_, none⟩ | ⟨kernel, withKernel, ran, same, all⟩
    · rw [none] at done
      cases done
    · rw [ran, Option.bind_some] at done
      simp only at done
      have evolved' := evolved.same same
      have cached' := same.persists _ _ cached
      by_cases failed : kernel.isError = true
      · rw [if_pos failed] at done
        cases done
        refine ⟨evolved', same.persists, ?_, fun succeed _ => all succeed⟩
        intro success
        subst success
        cases failed
      · rw [if_neg failed] at done
        obtain ⟨⟨inner, middle⟩, scanned, result⟩ := Option.map_eq_some_iff.mp done
        obtain ⟨final, persists, sound, succeeds⟩ :=
          scanBundleLibraries_contract (ih true) evolved' cached' scanned
        simp only at result
        by_cases broken : inner.isError = true
        · rw [if_pos broken] at result
          cases result
          exact ⟨final, same.persists.trans persists, sound, succeeds⟩
        · rw [if_neg broken] at result
          cases result
          have linked := linkSteps_same middle (middle.linkSteps + 1)
          refine ⟨final.same linked, same.persists.trans (persists.trans linked.persists), ?_, ?_⟩
          · intro _
            exact sound (success_of_noError broken)
          · intro succeed _
            exact succeed _ _ _

end Partial

section Depth
variable (env : Externals)
variable {result : EfiStatus × PrelinkedContext} {scan larger : Scan} {ref : KextRef}

def Extended (scan larger : Scan) : Prop :=
  ∀ ref ctx result, scan ref ctx = some result → larger ref ctx = some result

section

variable (extended : Extended scan larger)
include extended

theorem insertDependency_extended {ref index dependency : Nat} {ctx : PrelinkedContext}
    (done : internalInsertPrelinkedKextDependency scan ref index dependency ctx = some result) :
    internalInsertPrelinkedKextDependency larger ref index dependency ctx = some result := by
  unfold internalInsertPrelinkedKextDependency at *
  split at done
  · rename_i full
    rw [if_pos full]
    exact done
  · rename_i room
    obtain ⟨inner, ran, same⟩ := Option.map_eq_some_iff.mp done
    rw [if_neg room, extended dependency ctx inner ran, Option.map_some, same]

theorem scanLibraries_extended
    (ref : KextRef) (keys : List Text) (index : Nat) (ctx : PrelinkedContext)
    (result : EfiStatus × PrelinkedContext)
    (done : scanLibraries env scan ref keys index ctx = some result) :
    scanLibraries env larger ref keys index ctx = some result := by
  induction keys generalizing index ctx with
  | nil => exact done
  | cons text rest ih =>
    unfold scanLibraries at done ⊢
    split at done
    · rename_i skipped
      rw [if_pos skipped]
      exact ih index ctx done
    · rename_i taken
      rw [if_neg taken]
      cases looked : dependencyKext env ctx text with
      | mk found middle =>
        rw [looked] at done
        cases found with
        | none => exact ih index middle done
        | some dependency =>
          obtain ⟨⟨inner, inserted⟩, ran, rested⟩ := Option.bind_eq_some_iff.mp done
          simp only [insertDependency_extended extended ran, Option.bind_some]
          simp only at rested
          split at rested
          · rename_i failed
            rw [if_pos failed]
            exact rested
          · rename_i fine
            rw [if_neg fine]
            exact ih (index + 1) inserted rested

theorem scanKernel_extended {ctx : PrelinkedContext}
    (done : scanKernel env scan ref ctx = some result) :
    scanKernel env larger ref ctx = some result := by
  unfold scanKernel at *
  cases looked : internalCachedPrelinkedKernel env ctx with
  | mk found middle =>
    rw [looked] at done
    cases found with
    | none => exact done
    | some kernel =>
      simp only at done ⊢
      split at done
      · rename_i self
        rw [if_pos self]
        exact done
      · rename_i other
        rw [if_neg other]
        exact insertDependency_extended extended done

theorem scanBundleLibraries_extended {ctx : PrelinkedContext}
    (done : scanBundleLibraries env scan ref ctx = some result) :
    scanBundleLibraries env larger ref ctx = some result := by
  unfold scanBundleLibraries at *
  cases libraries : (ctx.kext ref).bind Kext.bundleLibraries with
  | none =>
    rw [libraries] at done
    exact done
  | some node =>
    rw [libraries] at done
    obtain ⟨inner, ran, same⟩ := Option.map_eq_some_iff.mp done
    simp only [scanLibraries_extended env extended ref _ 1 ctx inner ran, Option.map_some, same]

end

theorem scan_deeper (fuel : Nat) (ref : KextRef) (dependency : Bool) (ctx : PrelinkedContext)
    (result : EfiStatus × PrelinkedContext)
    (done : internalScanPrelinkedKext env fuel ref dependency ctx = some result) :
    internalScanPrelinkedKext env (fuel + 1) ref dependency ctx = some result := by
  induction fuel generalizing ref dependency ctx result with
  | zero => cases done
  | succ fuel ih =>
    have extended : Extended
        (fun other current => internalScanPrelinkedKext env fuel other true current)
        (fun other current => internalScanPrelinkedKext env (fuel + 1) other true current) :=
      fun other current inner ran => ih other true current inner ran
    unfold internalScanPrelinkedKext at done ⊢
    obtain ⟨⟨kernel, withKernel⟩, ran, done⟩ := Option.bind_eq_some_iff.mp done
    simp only [scanKernel_extended env extended ran, Option.bind_some]
    simp only at done
    split at done
    · rename_i failed
      rw [if_pos failed]
      exact done
    · rename_i fine
      obtain ⟨inner, scanned, same⟩ := Option.map_eq_some_iff.mp done
      rw [if_neg fine, scanBundleLibraries_extended env extended scanned, Option.map_some, same]

theorem scan_extended {fuel larger : Nat} (deeper : fuel ≤ larger) (dependency : Bool) :
    Extended (fun other current => internalScanPrelinkedKext env fuel other dependency current)
      (fun other current =>
        internalScanPrelinkedKext env larger other dependency current) := by
  intro ref ctx result done
  induction deeper with
  | refl => exact done
  | step _ ih => exact scan_deeper env _ ref dependency ctx result ih

end Depth

section Ends
variable {env : Externals} {base current : PrelinkedContext}
variable {rest : List Text} {ref : KextRef} {scan : Scan} {text : Text} {index : Nat}

def Ends (env : Externals) (base : PrelinkedContext) (identifier : Bytes) : Prop :=
  ∀ ctx ref dependency, Evolved env base ctx →
    cachedKext ctx identifier = some ref →
    ∃ fuel result, internalScanPrelinkedKext env fuel ref dependency ctx = some result

theorem scanLibraries_missing {current after : PrelinkedContext}
    (looked : (current.isKernelCollection && isKpi text.value) = false)
    (missing : dependencyKext env current text = (none, after)) :
    scanLibraries env scan ref (text :: rest) index current =
      scanLibraries env scan ref rest index after := by
  rw [scanLibraries, if_neg (by simp [looked]), missing]

theorem scanLibraries_found {current after : PrelinkedContext} {dependency : KextRef}
    (looked : (current.isKernelCollection && isKpi text.value) = false)
    (found : dependencyKext env current text = (some dependency, after)) :
    scanLibraries env scan ref (text :: rest) index current =
      (internalInsertPrelinkedKextDependency scan ref index dependency after).bind fun inserted =>
        if inserted.1.isError then some inserted
        else scanLibraries env scan ref rest (index + 1) inserted.2 := by
  rw [scanLibraries, if_neg (by simp [looked]), found]

-- The dependencies done so far were all sound, so the next one is followed and
-- its scan ends; the depth needed is the larger of the two.
theorem scanLibraries_ends (ref : KextRef) (total : List Bytes)
    (reach : ∀ other, FollowedIn env base total other → Ends env base other)
    (keys : List Text) (before : List Bytes) (current : PrelinkedContext)
    (split : total = before ++ dependenciesIn env base keys)
    (sound : ∀ earlier ∈ before, Sound env base earlier)
    (evolved : Evolved env base current) :
    ∃ fuel result, scanLibraries env (fun other ctx =>
      internalScanPrelinkedKext env fuel other true ctx) ref keys (before.length + 1)
        current = some result := by
  induction keys generalizing before current with
  | nil => exact ⟨0, _, rfl⟩
  | cons text rest ih =>
    rw [dependenciesIn_cons] at split
    cases taken : current.isKernelCollection && isKpi text.value with
    | true =>
      have skipped : resolveLibrary env base text.value = none := by
        have kpi := taken
        rw [evolved.collection] at kpi
        rw [resolveLibrary, if_pos kpi]
      rw [skipped] at split
      obtain ⟨fuel, result, ran⟩ := ih before current split sound evolved
      exact ⟨fuel, result, by rw [scanLibraries, if_pos taken]; exact ran⟩
    | false =>
      obtain ⟨looked, _, answer⟩ := evolved.dependency text taken
      cases result : dependencyKext env current text with
      | mk answered middle =>
        rw [result] at looked answer
        cases resolved : resolveLibrary env base text.value with
        | none =>
          rw [resolved] at split answer
          simp only at answer
          subst answer
          obtain ⟨fuel, final, ran⟩ := ih before middle split sound looked
          exact ⟨fuel, final, by rw [scanLibraries_missing taken result]; exact ran⟩
        | some identifier =>
          rw [resolved] at split answer
          obtain ⟨dependency, same, cached⟩ := answer
          simp only at same
          subst same
          by_cases full : before.length + 1 ≥ maxKextDependencies
          · refine ⟨0, (.outOfResources, middle), ?_⟩
            rw [scanLibraries_found taken result]
            simp [internalInsertPrelinkedKextDependency, full, EfiStatus.isError]
          · have followed : FollowedIn env base total identifier :=
              ⟨before, _, split, Nat.lt_of_not_ge full, sound⟩
            obtain ⟨first, ⟨status, inner⟩, scanned⟩ :=
              reach identifier followed middle dependency true looked cached
            by_cases failed : status.isError = true
            · refine ⟨first, (status, inner), ?_⟩
              rw [scanLibraries_found taken result]
              simp [internalInsertPrelinkedKextDependency, full, scanned, failed]
            · obtain ⟨evolved', _, isSound, _⟩ := scan_contract first true middle
                identifier dependency status inner looked cached scanned
              have own := isSound (success_of_noError failed)
              obtain ⟨second, final, ran⟩ := ih (before ++ [identifier])
                (inner.setDependency ref (before.length + 1) dependency)
                (by rw [split]; simp) (by
                  intro earlier member
                  rcases mem_append.mp member with old | new
                  · exact sound earlier old
                  · exact mem_singleton.mp new ▸ own)
                (evolved'.same (setDependency_same _ _ _ _))
              refine ⟨max first second, final, ?_⟩
              have scannedMax := scan_extended env (Nat.le_max_left first second)
                true dependency middle _ scanned
              have ranMax := scanLibraries_extended env
                (scan_extended env (Nat.le_max_right first second) true) ref rest _ _
                final ran
              rw [scanLibraries_found taken result]
              beta_reduce at scannedMax
              simp only [internalInsertPrelinkedKextDependency, if_neg full, scannedMax,
                Option.map_some, if_neg failed, Option.bind_some]
              rw [length_append, length_singleton] at ranMax
              exact ranMax

theorem scan_ends (ref : KextRef) (dependency : Bool) (evolved : Evolved env base current)
    (reach : ∀ libraries, (current.kext ref).bind Kext.bundleLibraries = some libraries →
      ∀ other, FollowedIn env base
        (dependenciesIn env base (plistDictKeys libraries)) other → Ends env base other) :
    ∃ fuel result, internalScanPrelinkedKext env fuel ref dependency current = some result := by
  have ended : ∀ inner ctx, Evolved env base ctx →
      (ctx.kext ref).bind Kext.bundleLibraries = (current.kext ref).bind Kext.bundleLibraries →
      ∃ fuel result, inner ≤ fuel ∧ scanBundleLibraries env (fun other ctx =>
        internalScanPrelinkedKext env fuel other true ctx) ref ctx = some result := by
    intro inner ctx evolved' same
    unfold scanBundleLibraries
    cases libraries : (current.kext ref).bind Kext.bundleLibraries with
    | none =>
      rw [same, libraries]
      exact ⟨inner, _, le_refl _, rfl⟩
    | some node =>
      rw [same, libraries]
      obtain ⟨fuel, result, ran⟩ := scanLibraries_ends ref _ (reach node libraries)
        (plistDictKeys node) [] ctx rfl (by simp) evolved'
      have deeper := scanLibraries_extended env
        (scan_extended env (Nat.le_max_right inner fuel) true) ref _ _ _ result ran
      rw [length_nil, zero_add] at deeper
      refine ⟨max inner fuel, if result.1.isError then (result.1, result.2)
        else (.success, result.2.clearLibraries ref), Nat.le_max_left _ _, ?_⟩
      simp only [deeper, Option.map_some]
  rcases scanKernel_same evolved 1 ref with ⟨zero, _⟩ | ⟨status, withKernel, ran, same, _⟩
  · cases zero
  · obtain ⟨fuel, ⟨inner, after⟩, enough, scanned⟩ := ended 1 withKernel (evolved.same same)
      (same.libraries ref)
    have kernelRan := scanKernel_extended env (scan_extended env enough true) ran
    refine ⟨fuel + 1, ?_⟩
    simp only [internalScanPrelinkedKext, kernelRan, Option.bind_some, scanned, Option.map_some]
    by_cases failed : status.isError = true
    · exact ⟨_, by rw [if_pos failed]⟩
    · exact ⟨_, by rw [if_neg failed]⟩

theorem ends_of_acc {identifier : Bytes}
    (acc : Acc (fun other node => Follows env base node other) identifier) :
    Ends env base identifier := by
  induction acc with
  | intro identifier _ ih =>
    intro ctx ref dependency evolved cached
    apply scan_ends ref dependency evolved
    intro libraries present other followed
    apply ih other
    have listed := evolved.listed cached present
    rw [Follows, dependenciesOf, listed]
    exact followed

end Ends

end OpenCore.KextScan
