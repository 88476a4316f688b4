import OpenCore.CachelessScan
import OpenCore.Reachability

/-!
When the scan for the built-in kexts that are needed ends, and that it then has marked and
listed just the kexts that can be reached. No call looks whether a kext was met before, so
that it ends where no needed kext depends on itself.
-/

namespace OpenCore.CachelessClosure

open Relation CachelessScan Reachability List

section Graph
variable (builtIn : List BuiltinKext)

def At (name : String) (place : Nat) : Prop :=
  ∃ kext, lookupBuiltinKextForIdentifier builtIn name = some (place, kext)

def Needed (name : String) : Prop :=
  ∃ place kext, lookupBuiltinKextForIdentifier builtIn name = some (place, kext) ∧
    kext.osBundleRequiredValue ≠ .valid

def DependsOn (name dependency : String) : Prop :=
  ∃ place kext, lookupBuiltinKextForIdentifier builtIn name = some (place, kext) ∧
    kext.osBundleRequiredValue ≠ .valid ∧ dependency ∈ kext.dependencies ∧
      Needed builtIn dependency

def From (root name : String) : Prop :=
  Needed builtIn root ∧ ReflTransGen (DependsOn builtIn) root name

/-- The needed kexts that the patched kexts and the injected dependencies lead to. -/
def Reached (patchedKexts injected : List String) (name : String) : Prop :=
  ∃ root, (root ∈ patchedKexts ∨ root ∈ injected) ∧ From builtIn root name

variable {builtIn} {root name dependency : String} {place : Nat} {kext : BuiltinKext}

theorem From.needed (reached : From builtIn root name) : Needed builtIn name := by
  obtain ⟨needed, path⟩ := reached
  induction path with
  | refl => exact needed
  | tail _ step _ =>
    obtain ⟨_, _, _, _, _, needed⟩ := step
    exact needed

theorem From.trans {target : String} (reached : From builtIn root name)
    (next : From builtIn name target) : From builtIn root target :=
  ⟨reached.1, reached.2.trans next.2⟩

theorem from_iff (found : lookupBuiltinKextForIdentifier builtIn root = some (place, kext))
    (needed : kext.osBundleRequiredValue ≠ .valid) :
    From builtIn root name ↔
      name = root ∨ ∃ dependency ∈ kext.dependencies, From builtIn dependency name := by
  constructor
  · rintro ⟨-, path⟩
    rcases ReflTransGen.cases_head path with rfl | ⟨dependency, step, rest⟩
    · exact Or.inl rfl
    · obtain ⟨_, _, same, _, member, others⟩ := step
      cases found.symm.trans same
      exact Or.inr ⟨dependency, member, others, rest⟩
  · rintro (rfl | ⟨dependency, member, others, rest⟩)
    · exact ⟨⟨place, kext, found, needed⟩, .refl⟩
    · exact ⟨⟨place, kext, found, needed⟩, .head ⟨place, kext, found, needed, member, others⟩ rest⟩

theorem lookupFrom_member {kexts : List BuiltinKext} {start : Nat}
    (found : lookupFrom name kexts start = some (place, kext)) :
    kext ∈ kexts ∧ kext.identifier = name := by
  induction kexts generalizing start with
  | nil => cases found
  | cons first rest ih =>
    rw [lookupFrom] at found
    split at found
    · cases found
      exact ⟨mem_cons_self, ‹_›⟩
    · obtain ⟨member, same⟩ := ih found
      exact ⟨mem_cons_of_mem _ member, same⟩

theorem Needed.member (needed : Needed builtIn name) :
    name ∈ builtIn.map BuiltinKext.identifier := by
  obtain ⟨_, kext, found, _⟩ := needed
  obtain ⟨member, same⟩ := lookupFrom_member found
  exact mem_map.mpr ⟨kext, member, same⟩

end Graph

section Marks
variable {builtIn : List BuiltinKext} {roots others : String → Prop}
  {first second third : ScanState}

structure Scanned (builtIn : List BuiltinKext) (met : String → Prop)
    (first second : ScanState) : Prop where
  marks : ∀ place, second.patchValidOsBundleRequired place = true ↔
    first.patchValidOsBundleRequired place = true ∨
      ∃ name, met name ∧ At builtIn name place
  listed : ∀ name, name ∈ second.injectedDependencies ↔
    name ∈ first.injectedDependencies ∨ met name
  order : first.injectedDependencies <+: second.injectedDependencies

theorem Scanned.same (state : ScanState) : Scanned builtIn (fun _ => False) state state := by
  refine ⟨fun place => ?_, fun name => ?_, prefix_refl _⟩
  · simp
  · simp

theorem Scanned.trans (left : Scanned builtIn roots first second)
    (right : Scanned builtIn others second third) :
    Scanned builtIn (fun name => roots name ∨ others name) first third := by
  refine ⟨fun place => ?_, fun name => ?_, left.order.trans right.order⟩
  · rw [right.marks, left.marks, or_assoc]
    refine or_congr_right ?_
    constructor
    · rintro (⟨name, met, found⟩ | ⟨name, met, found⟩)
      · exact ⟨name, Or.inl met, found⟩
      · exact ⟨name, Or.inr met, found⟩
    · rintro ⟨name, met | met, found⟩
      · exact Or.inl ⟨name, met, found⟩
      · exact Or.inr ⟨name, met, found⟩
  · rw [right.listed, left.listed, or_assoc]

theorem Scanned.congr (scanned : Scanned builtIn roots first second)
    (same : ∀ name, roots name ↔ others name) :
    Scanned builtIn others first second := by
  have equal : roots = others := funext fun name => propext (same name)
  rwa [← equal]

theorem Scanned.fold {scan : ScanState → String → Option ScanState} {met : String → String → Prop}
    {identifiers : List String}
    (each : ∀ name ∈ identifiers, ∀ first second, scan first name = some second →
      Scanned builtIn (met name) first second)
    (ran : identifiers.foldlM scan first = some second) :
    Scanned builtIn (fun target => ∃ name ∈ identifiers, met name target)
      first second := by
  induction identifiers generalizing first with
  | nil =>
    cases ran
    exact (Scanned.same _).congr fun _ => by simp
  | cons name rest ih =>
    rw [foldlM_cons] at ran
    obtain ⟨next, here, there⟩ := Option.bind_eq_some_iff.mp ran
    have scanned := each name mem_cons_self _ _ here
    have behind := ih (fun other member => each other (mem_cons_of_mem _ member)) there
    exact (scanned.trans behind).congr fun _ => by simp

theorem scanned_self {name : String} {place : Nat} {kext : BuiltinKext}
    (found : lookupBuiltinKextForIdentifier builtIn name = some (place, kext)) (state : ScanState) :
    Scanned builtIn (· = name) state
      ((state.setPatchValid place).addKextDependency name) := by
  have flags : ∀ state : ScanState, (state.addKextDependency name).patchValidOsBundleRequired =
        state.patchValidOsBundleRequired := by
    intro state
    rw [ScanState.addKextDependency]
    split <;> rfl
  refine ⟨fun other => ?_, fun other => ?_, ?_⟩
  · rw [flags, ScanState.setPatchValid]
    dsimp only
    rw [setFlag]
    constructor
    · intro set
      split at set
      · rename_i here
        exact Or.inr ⟨name, rfl, kext, here ▸ found⟩
      · exact Or.inl set
    · rintro (set | ⟨_, rfl, _, same⟩)
      · rw [set, ite_self]
      · cases found.symm.trans same
        rw [if_pos rfl]
  · rw [ScanState.addKextDependency]
    split
    · rename_i present
      exact ⟨Or.inl, fun either => either.elim id fun same => same ▸ present⟩
    · exact mem_append.trans (or_congr_right mem_singleton)
  · rw [ScanState.addKextDependency]
    split
    · exact prefix_refl _
    · exact prefix_append _ _

theorem scanDependencies_scanned {depth : Nat} {name : String}
    (ran : scanDependencies builtIn depth name first = some second) :
    Scanned builtIn (From builtIn name) first second := by
  induction depth generalizing name first second with
  | zero => cases ran
  | succ depth ih =>
    rw [scanDependencies] at ran
    cases found : lookupBuiltinKextForIdentifier builtIn name with
    | none =>
      rw [found] at ran
      cases ran
      refine (Scanned.same _).congr fun target => iff_of_false id ?_
      rintro ⟨⟨_, _, present, _⟩, _⟩
      cases found.symm.trans present
    | some entry =>
      obtain ⟨place, kext⟩ := entry
      rw [found] at ran
      dsimp only at ran
      split at ran
      · rename_i valid
        cases ran
        refine (Scanned.same _).congr fun target => iff_of_false id ?_
        rintro ⟨⟨_, _, present, needed⟩, _⟩
        cases found.symm.trans present
        exact needed valid
      · rename_i needed
        have others := Scanned.fold (fun dependency _ _ _ here => ih here) ran
        exact ((scanned_self found first).trans others).congr fun target =>
          (from_iff found needed).symm

end Marks

section Depths
variable {builtIn : List BuiltinKext} {first second : ScanState} {depth : Nat}
  {name : String}

variable {identifiers : List String}

theorem foldlM_congr {scan other : ScanState → String → Option ScanState}
    (each : ∀ name first second, scan first name = some second → other first name = some second)
    (ran : identifiers.foldlM scan first = some second) :
    identifiers.foldlM other first = some second := by
  induction identifiers generalizing first with
  | nil => exact ran
  | cons name rest ih =>
    rw [foldlM_cons] at ran ⊢
    obtain ⟨next, here, there⟩ := Option.bind_eq_some_iff.mp ran
    exact Option.bind_eq_some_iff.mpr ⟨next, each _ _ _ here, ih there⟩

variable {scan : ScanState → String → Option ScanState}

theorem foldlM_each (ran : identifiers.foldlM scan first = some second) :
    ∀ name ∈ identifiers, ∃ before next, scan before name = some next := by
  induction identifiers generalizing first with
  | nil => exact fun _ member => absurd member not_mem_nil
  | cons name rest ih =>
    rw [foldlM_cons] at ran
    obtain ⟨next, here, there⟩ := Option.bind_eq_some_iff.mp ran
    exact forall_mem_cons.mpr ⟨⟨first, next, here⟩, ih there⟩

def Suffices (builtIn : List BuiltinKext) (depth : Nat) (name : String) : Prop :=
  ∀ state, ∃ last, scanDependencies builtIn depth name state = some last

theorem foldlM_suffices (each : ∀ name ∈ identifiers, ∀ state, ∃ last, scan state name = some last)
    (state : ScanState) : ∃ last, identifiers.foldlM scan state = some last := by
  induction identifiers generalizing state with
  | nil => exact ⟨state, rfl⟩
  | cons name rest ih =>
    obtain ⟨next, here⟩ := each name mem_cons_self state
    obtain ⟨last, there⟩ := ih (fun other member => each other (mem_cons_of_mem _ member)) next
    exact ⟨last, by rw [foldlM_cons, here]; exact there⟩

theorem scanDependencies_succ (ran : scanDependencies builtIn depth name first = some second) :
    scanDependencies builtIn (depth + 1) name first = some second := by
  induction depth generalizing name first second with
  | zero => cases ran
  | succ depth ih =>
    rw [scanDependencies] at ran ⊢
    cases found : lookupBuiltinKextForIdentifier builtIn name with
    | none =>
      rw [found] at ran
      exact ran
    | some entry =>
      rw [found] at ran
      dsimp only at ran ⊢
      split at ran
      · rename_i valid
        rw [if_pos valid]
        exact ran
      · rename_i needed
        rw [if_neg needed]
        exact foldlM_congr (fun _ _ _ here => ih here) ran

theorem Suffices.le {more : Nat} (enough : Suffices builtIn depth name)
    (le : depth ≤ more) : Suffices builtIn more name := by
  induction le with
  | refl => exact enough
  | step _ ih =>
    intro state
    obtain ⟨last, ran⟩ := ih state
    exact ⟨last, scanDependencies_succ ran⟩

theorem suffices_all {among : String → Prop} {identifiers : List String}
    (each : ∀ name ∈ identifiers, among name → ∃ depth, Suffices builtIn depth name) :
    ∃ depth, ∀ name ∈ identifiers, among name → Suffices builtIn depth name := by
  induction identifiers with
  | nil => exact ⟨0, fun _ member => absurd member not_mem_nil⟩
  | cons name rest ih =>
    obtain ⟨there, others⟩ := ih fun other member => each other (mem_cons_of_mem _ member)
    by_cases isAmong : among name
    · obtain ⟨here, enough⟩ := each name mem_cons_self isAmong
      refine ⟨max here there, forall_mem_cons.mpr
        ⟨fun _ => enough.le (Nat.le_max_left _ _), fun other member known => ?_⟩⟩
      exact (others other member known).le (Nat.le_max_right _ _)
    · exact ⟨there, forall_mem_cons.mpr ⟨fun known => absurd known isAmong, others⟩⟩

theorem suffices_one (unneeded : ¬Needed builtIn name) :
    Suffices builtIn 1 name := by
  intro state
  rw [scanDependencies]
  cases found : lookupBuiltinKextForIdentifier builtIn name with
  | none => exact ⟨state, rfl⟩
  | some entry =>
    have valid : entry.2.osBundleRequiredValue = .valid :=
      not_not.mp fun needed => unneeded ⟨entry.1, entry.2, found, needed⟩
    exact ⟨state, if_pos valid⟩

theorem suffices_of_acc (ends : Acc (fun next node => DependsOn builtIn node next) name) :
    ∃ depth, Suffices builtIn depth name := by
  induction ends with
  | intro name _ ih =>
    by_cases isNeeded : Needed builtIn name
    · obtain ⟨place, kext, found, needed⟩ := isNeeded
      have each : ∀ dependency ∈ kext.dependencies, True →
          ∃ depth, Suffices builtIn depth dependency := by
        intro dependency member _
        by_cases next : Needed builtIn dependency
        · exact ih dependency ⟨place, kext, found, needed, member, next⟩
        · exact ⟨1, suffices_one next⟩
      obtain ⟨depth, enough⟩ := suffices_all each
      refine ⟨depth + 1, fun state => ?_⟩
      rw [scanDependencies, found]
      dsimp only
      rw [if_neg needed]
      exact foldlM_suffices (fun dependency member => enough dependency member trivial) _
    · exact ⟨1, suffices_one isNeeded⟩

theorem acc_of_scanned (ran : scanDependencies builtIn depth name first = some second) :
    Acc (fun next node => DependsOn builtIn node next) name := by
  induction depth generalizing name first second with
  | zero => cases ran
  | succ depth ih =>
    constructor
    rintro dependency ⟨place, kext, found, needed, member, -⟩
    rw [scanDependencies, found] at ran
    dsimp only at ran
    rw [if_neg needed] at ran
    obtain ⟨before, next, here⟩ := foldlM_each ran dependency member
    exact ih here

end Depths

section Loops
variable {builtIn : List BuiltinKext} {first second : ScanState} {depth turns position : Nat}
  {name : String} {patchedKexts : List String}

theorem scanPatchedKext_scanned (ran : scanPatchedKext builtIn depth first name = some second) :
    Scanned builtIn (From builtIn name) first second := by
  rw [scanPatchedKext] at ran
  cases found : lookupBuiltinKextForIdentifier builtIn name with
  | none =>
    rw [found] at ran
    cases ran
    refine (Scanned.same _).congr fun target => iff_of_false id ?_
    rintro ⟨⟨_, _, present, _⟩, _⟩
    cases found.symm.trans present
  | some entry =>
    rw [found] at ran
    obtain ⟨marks, listed, order⟩ := scanDependencies_scanned ran
    exact ⟨marks, listed, order⟩

theorem scanPatchedKext_acc (ran : scanPatchedKext builtIn depth first name = some second) :
    Acc (fun next node => DependsOn builtIn node next) name := by
  rw [scanPatchedKext] at ran
  cases found : lookupBuiltinKextForIdentifier builtIn name with
  | none =>
    constructor
    rintro dependency ⟨_, _, present, _⟩
    cases found.symm.trans present
  | some entry =>
    rw [found] at ran
    exact acc_of_scanned ran

theorem scanInjected_scanned (ran : scanInjected builtIn depth turns position first = some second) :
    Scanned builtIn (fun target => ∃ name ∈ second.injectedDependencies.drop position,
        From builtIn name target) first second ∧ ∀ name ∈ second.injectedDependencies.drop position,
        Acc (fun next node => DependsOn builtIn node next) name := by
  induction turns generalizing position first with
  | zero => cases ran
  | succ turns ih =>
    rw [scanInjected] at ran
    cases here : first.injectedDependencies[position]? with
    | none =>
      rw [here] at ran
      cases ran
      have beyond : second.injectedDependencies.drop position = [] :=
        drop_eq_nil_of_le (List.getElem?_eq_none_iff.mp here)
      rw [beyond]
      exact ⟨(Scanned.same _).congr fun _ => by simp, fun _ member => absurd member not_mem_nil⟩
    | some name =>
      rw [here] at ran
      dsimp only at ran
      obtain ⟨next, scan, rest⟩ := Option.bind_eq_some_iff.mp ran
      have scanned := scanDependencies_scanned scan
      obtain ⟨others, ends⟩ := ih rest
      -- What was at the position is still there in the end.
      have there : second.injectedDependencies[position]? = some name := by
        have bound := (List.getElem?_eq_some_iff.mp here).1
        obtain ⟨more, order⟩ := scanned.order.trans others.order
        rw [← order, getElem?_append_left bound, here]
      have split : second.injectedDependencies.drop position =
          name :: second.injectedDependencies.drop (position + 1) := by
        obtain ⟨bound, value⟩ := List.getElem?_eq_some_iff.mp there
        rw [drop_eq_getElem_cons bound, value]
      rw [split]
      exact ⟨(scanned.trans others).congr fun _ => by simp,
        forall_mem_cons.mpr ⟨acc_of_scanned scan, ends⟩⟩

theorem scanInjected_sound {among : String → Prop}
    (closed : ∀ name target, among name → From builtIn name target → among target)
    (start : ∀ name ∈ first.injectedDependencies, among name)
    (ran : scanInjected builtIn depth turns position first = some second) :
    ∀ name ∈ second.injectedDependencies, among name := by
  induction turns generalizing position first with
  | zero => cases ran
  | succ turns ih =>
    rw [scanInjected] at ran
    cases here : first.injectedDependencies[position]? with
    | none =>
      rw [here] at ran
      cases ran
      exact start
    | some name =>
      rw [here] at ran
      dsimp only at ran
      obtain ⟨next, scan, rest⟩ := Option.bind_eq_some_iff.mp ran
      refine ih (fun other member => ?_) rest
      rcases ((scanDependencies_scanned scan).listed other).mp member with old | met
      · exact start other old
      · exact closed name other (start name (mem_of_getElem? here)) met

theorem scanInjected_returns {among : String → Prop} {bound : List String}
    (closed : ∀ name target, among name → From builtIn name target → among target)
    (finite : ∀ name, among name → name ∈ bound)
    (enough : ∀ name, among name → Suffices builtIn depth name)
    (start : ∀ name ∈ first.injectedDependencies, among name)
    (inside : position ≤ first.injectedDependencies.length) (left : bound.length < turns + position) :
    ∃ last, scanInjected builtIn depth turns position first = some last := by
  have short : ∀ state : ScanState, (∀ name ∈ state.injectedDependencies, among name) →
      state.injectedDependencies.length ≤ bound.length := fun state members =>
    (state.once.subperm fun name member => finite name (members name member)).length_le
  induction turns generalizing position first with
  | zero =>
    have fits := short first start
    omega
  | succ turns ih =>
    rw [scanInjected]
    cases here : first.injectedDependencies[position]? with
    | none => exact ⟨first, rfl⟩
    | some name =>
      have isAmong := start name (mem_of_getElem? here)
      obtain ⟨next, scan⟩ := enough name isAmong first
      have scanned := scanDependencies_scanned scan
      have grown := scanned.order.length_le
      have within := (List.getElem?_eq_some_iff.mp here).1
      dsimp only
      rw [scan]
      refine ih (fun other member => ?_) (by omega) (by omega)
      rcases (scanned.listed other).mp member with old | met
      · exact start other old
      · exact closed name other isAmong met

end Loops

section Results
variable {builtIn : List BuiltinKext} {state last : ScanState} {depth turns : Nat}
  {patchedKexts : List String}

def Acyclic (builtIn : List BuiltinKext) (patchedKexts injected : List String) : Prop :=
  ∀ name, Reached builtIn patchedKexts injected name →
    ¬TransGen (DependsOn builtIn) name name

structure Closed (builtIn : List BuiltinKext) (patchedKexts injected : List String)
    (last : ScanState) : Prop where
  marks : ∀ place, last.patchValidOsBundleRequired place = true ↔
    ∃ name, Reached builtIn patchedKexts injected name ∧
      At builtIn name place
  listed : ∀ name, Reached builtIn patchedKexts injected name →
    last.injectedDependencies.count name = 1

variable {injected : List String}

theorem Reached.trans {name target : String} (reached : Reached builtIn patchedKexts injected name)
    (next : From builtIn name target) :
    Reached builtIn patchedKexts injected target := by
  obtain ⟨root, isRoot, path⟩ := reached
  exact ⟨root, isRoot, path.trans next⟩

theorem scanBuiltInKexts_scanned
    (ran : scanBuiltInKexts builtIn depth turns patchedKexts state = some last) :
    Scanned builtIn (Reached builtIn patchedKexts state.injectedDependencies) state last ∧
      ∀ root, root ∈ patchedKexts ∨ root ∈ state.injectedDependencies →
        Acc (fun next node => DependsOn builtIn node next) root := by
  obtain ⟨middle, patched, injected⟩ := Option.bind_eq_some_iff.mp ran
  have marked := Scanned.fold (fun name _ _ _ here => scanPatchedKext_scanned here) patched
  obtain ⟨others, ends⟩ := scanInjected_scanned injected
  rw [drop_zero] at others ends
  have kept : ∀ name ∈ state.injectedDependencies, name ∈ last.injectedDependencies :=
    fun name member => (marked.order.trans others.order).subset member
  have sound : ∀ name ∈ last.injectedDependencies, name ∈ state.injectedDependencies ∨
      Reached builtIn patchedKexts state.injectedDependencies name := by
    refine scanInjected_sound ?_ ?_ injected
    · rintro name target (listed | reached) path
      · exact Or.inr ⟨name, Or.inr listed, path⟩
      · exact Or.inr (reached.trans path)
    · intro name member
      refine ((marked.listed name).mp member).imp_right ?_
      rintro ⟨root, isPatched, path⟩
      exact ⟨root, Or.inl isPatched, path⟩
  refine ⟨(marked.trans others).congr fun target => ⟨?_, ?_⟩, ?_⟩
  · rintro (⟨root, isPatched, path⟩ | ⟨root, member, path⟩)
    · exact ⟨root, Or.inl isPatched, path⟩
    · rcases sound root member with listed | reached
      · exact ⟨root, Or.inr listed, path⟩
      · exact reached.trans path
  · rintro ⟨root, isPatched | listed, path⟩
    · exact Or.inl ⟨root, isPatched, path⟩
    · exact Or.inr ⟨root, kept root listed, path⟩
  · rintro root (isPatched | listed)
    · obtain ⟨before, next, here⟩ := foldlM_each patched root isPatched
      exact scanPatchedKext_acc here
    · exact ends root (kept root listed)

theorem acyclic_of_scanned
    (ran : scanBuiltInKexts builtIn depth turns patchedKexts state = some last) :
    Acyclic builtIn patchedKexts state.injectedDependencies := by
  rintro name ⟨root, isRoot, -, path⟩ cycle
  have ends := (scanBuiltInKexts_scanned ran).2 root isRoot
  exact not_endless_of_acc ends ⟨name, path, cycle⟩

theorem acc_of_acyclic (acyclic : Acyclic builtIn patchedKexts injected)
    {root : String} (isRoot : root ∈ patchedKexts ∨ root ∈ injected) :
    Acc (fun next node => DependsOn builtIn node next) root := by
  refine acc_of_not_endless (finite_toSet (builtIn.map BuiltinKext.identifier)) ?_ ?_
  · rintro _ next ⟨_, _, _, _, _, needed⟩
    exact needed.member
  · rintro ⟨name, path, cycle⟩
    have whole : TransGen (DependsOn builtIn) root name := cycle.trans_right path
    obtain ⟨_, ⟨place, kext, found, needed, _⟩, _⟩ := TransGen.head'_iff.mp whole
    exact acyclic name ⟨root, isRoot, ⟨place, kext, found, needed⟩, path⟩ cycle

theorem scanBuiltInKexts_returns
    (acyclic : Acyclic builtIn patchedKexts state.injectedDependencies) :
    ∃ depth turns last, scanBuiltInKexts builtIn depth turns patchedKexts state = some last := by
  let among : String → Prop := fun name => name ∈ state.injectedDependencies ∨
    Reached builtIn patchedKexts state.injectedDependencies name
  let bound := state.injectedDependencies ++ builtIn.map BuiltinKext.identifier
  have closed : ∀ name target, among name → From builtIn name target → among target := by
    rintro name target (listed | reached) path
    · exact Or.inr ⟨name, Or.inr listed, path⟩
    · exact Or.inr (reached.trans path)
  have finite : ∀ name, among name → name ∈ bound := by
    rintro name (listed | ⟨root, -, path⟩)
    · exact mem_append_left _ listed
    · exact mem_append_right _ path.needed.member
  have ends : ∀ name, among name → Acc (fun next node => DependsOn builtIn node next) name := by
    rintro name (listed | ⟨root, isRoot, -, path⟩)
    · exact acc_of_acyclic acyclic (Or.inr listed)
    · have start := acc_of_acyclic acyclic isRoot
      clear isRoot
      induction path with
      | refl => exact start
      | tail _ step ih => exact ih.inv step
  have patchedEnds : ∀ name ∈ patchedKexts,
      Acc (fun next node => DependsOn builtIn node next) name :=
    fun name member => acc_of_acyclic acyclic (Or.inl member)
  -- One depth for all kexts that are ever scanned.
  obtain ⟨shallow, patchedEnough⟩ := suffices_all fun name member (_ : True) =>
    suffices_of_acc (patchedEnds name member)
  obtain ⟨deep, enough⟩ := @suffices_all builtIn among bound fun name _ isAmong =>
    suffices_of_acc (ends name isAmong)
  obtain ⟨middle, patched⟩ : ∃ middle, patchedKexts.foldlM
      (scanPatchedKext builtIn (max shallow deep)) state = some middle := by
    refine foldlM_suffices (fun name member before => ?_) state
    rw [scanPatchedKext]
    cases lookupBuiltinKextForIdentifier builtIn name with
    | none => exact ⟨before, rfl⟩
    | some entry =>
      exact (patchedEnough name member trivial).le (Nat.le_max_left _ _) _
  have marked := Scanned.fold (fun name _ _ _ here => scanPatchedKext_scanned here) patched
  have start : ∀ name ∈ middle.injectedDependencies, among name := by
    intro name member
    refine ((marked.listed name).mp member).imp_right ?_
    rintro ⟨root, isPatched, path⟩
    exact ⟨root, Or.inl isPatched, path⟩
  obtain ⟨last, injected⟩ := @scanInjected_returns builtIn middle (max shallow deep)
    (bound.length + 1) 0 among bound closed finite
    (fun name isAmong => (enough name (finite name isAmong) isAmong).le
      (Nat.le_max_right _ _)) start (Nat.zero_le _) (Nat.lt_succ_self _)
  refine ⟨max shallow deep, bound.length + 1, last, ?_⟩
  rw [scanBuiltInKexts, patched]
  exact injected

/-- The scan ends with what is meant just where no kext that is reached depends on itself. -/
theorem scanBuiltInKexts_right (builtIn : List BuiltinKext) (patchedKexts : List String)
    (state : ScanState) (fresh : ∀ place, state.patchValidOsBundleRequired place = false) :
    (∃ depth turns last,
      scanBuiltInKexts builtIn depth turns patchedKexts state = some last ∧
        Closed builtIn patchedKexts state.injectedDependencies last) ↔
      Acyclic builtIn patchedKexts state.injectedDependencies := by
  constructor
  · rintro ⟨depth, turns, last, ran, -⟩
    exact acyclic_of_scanned ran
  · intro acyclic
    obtain ⟨depth, turns, last, ran⟩ := scanBuiltInKexts_returns acyclic
    obtain ⟨marks, listed, -⟩ := (scanBuiltInKexts_scanned ran).1
    refine ⟨depth, turns, last, ran, fun place => ?_, fun name reached => ?_⟩
    · rw [marks, fresh place]
      simp
    · exact count_eq_one_of_mem last.once ((listed name).mpr (Or.inr reached))

def freshState : ScanState := ⟨fun _ => false, fun _ => false, [], nodup_nil⟩

def chainedKexts : List BuiltinKext :=
  [⟨"driver", .none, ["family", "base"]⟩, ⟨"family", .invalid, ["base"]⟩, ⟨"base", .none, []⟩,
    ⟨"other", .valid, []⟩]

theorem scanBuiltInKexts_right_chained : ∃ depth turns last,
    scanBuiltInKexts chainedKexts depth turns ["driver", "other"] freshState = some last ∧
      Closed chainedKexts ["driver", "other"] freshState.injectedDependencies last := by
  obtain ⟨last, ran⟩ := Option.isSome_iff_exists.mp
    (by decide : (scanBuiltInKexts chainedKexts 4 4 ["driver", "other"] freshState).isSome = true)
  exact (scanBuiltInKexts_right chainedKexts ["driver", "other"] freshState fun _ => rfl).mpr
    (acyclic_of_scanned ran)

def selfDependent : List BuiltinKext := [⟨"com.apple.driver", .none, ["com.apple.driver"]⟩]

/-- The scan for it, when it is to be patched, does not end. -/
theorem selfDependent_endless :
    ¬∃ depth turns last,
      scanBuiltInKexts selfDependent depth turns ["com.apple.driver"] freshState = some last ∧
        Closed selfDependent ["com.apple.driver"] freshState.injectedDependencies last := by
  rintro ⟨depth, turns, last, ran, -⟩
  have needed : Needed selfDependent "com.apple.driver" :=
    ⟨0, ⟨"com.apple.driver", .none, ["com.apple.driver"]⟩, by decide, by decide⟩
  have step : DependsOn selfDependent "com.apple.driver" "com.apple.driver" :=
    ⟨0, ⟨"com.apple.driver", .none, ["com.apple.driver"]⟩, by decide, by decide, by decide, needed⟩
  exact acyclic_of_scanned ran "com.apple.driver"
    ⟨"com.apple.driver", Or.inl mem_cons_self, needed, .refl⟩ (.single step)

end Results

end OpenCore.CachelessClosure
