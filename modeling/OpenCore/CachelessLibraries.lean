import Mathlib.Data.List.Induction
import Mathlib.Data.List.ReduceOption

/-!
Which dependencies a cacheless boot records for a kext. `InfoPlistLibraries64` is neither
set before the first kext nor between two kexts, and stands for what it pointed to before.
-/

namespace OpenCore.CachelessLibraries

open List

section Code

abbrev Dict := List (Option String)

inductive Value where
  | dict (keys : Dict)
  | other

def Value.cast : Value → Option Dict
  | .dict keys => some keys
  | .other => none

structure Field where
  key : Option String
  value : Value

def infoBundleLibrariesKey : String := "OSBundleLibraries"
def infoBundleLibraries64Key : String := "OSBundleLibraries_x86_64"

structure Choice where
  infoPlistLibraries : Option Dict
  infoPlistLibraries64 : Option Dict

/-- A turn of the search for properties, of which the other keys concern other fields. -/
def searchField (is32Bit : Bool) (choice : Choice) (field : Field) : Option Choice :=
  if field.key = some infoBundleLibrariesKey then
    if !is32Bit && choice.infoPlistLibraries64.isNone then
      field.value.cast.map fun libraries => { choice with infoPlistLibraries := some libraries }
    else some choice
  else if field.key = some infoBundleLibraries64Key then
    field.value.cast.map fun libraries =>
      { infoPlistLibraries := if !is32Bit then some libraries else choice.infoPlistLibraries
        infoPlistLibraries64 := some libraries }
  else some choice

def addKextDependency (dependencies : List String) (identifier : String) : List String :=
  if identifier ∈ dependencies then dependencies else dependencies ++ [identifier]

def addKextDependencies : List String → Dict → List String
  | dependencies, [] => dependencies
  | dependencies, none :: rest => addKextDependencies dependencies rest
  | dependencies, some identifier :: rest =>
    addKextDependencies (addKextDependency dependencies identifier) rest

/-- The dependencies with those of one `Info.plist` and `InfoPlistLibraries64` after it,
unless a value is not a dictionary. -/
def searchLibraries (is32Bit : Bool) (dependencies : List String)
    (infoPlistLibraries64 : Option Dict) (fields : List Field) :
    Option (List String × Option Dict) :=
  (fields.foldlM (searchField is32Bit) ⟨none, infoPlistLibraries64⟩).map fun choice =>
    (choice.infoPlistLibraries.elim dependencies (addKextDependencies dependencies),
      choice.infoPlistLibraries64)

/-- The dependencies of the kexts of one directory, up to the first that is refused. A
directory of plug-ins is another call, with variables of its own. -/
def scanExtensions (is32Bit : Bool) : Option Dict → List (List Field) → List (List String)
  | _, [] => []
  | infoPlistLibraries64, fields :: rest =>
    match searchLibraries is32Bit [] infoPlistLibraries64 fields with
    | none => []
    | some (dependencies, after) => dependencies :: scanExtensions is32Bit after rest

def cachelessContextAddKext (is32Bit : Bool) (injectedDependencies : List String)
    (infoPlistLibraries64 : Option Dict) (fields : List Field) : Option (List String) :=
  (searchLibraries is32Bit injectedDependencies infoPlistLibraries64 fields).map Prod.fst

end Code

section Own

def own (key : String) (fields : List Field) : Option Dict :=
  (fields.filter (·.key = some key)).getLast?.bind fun field => field.value.cast

def meant (is32Bit : Bool) (fields : List Field) : Option Dict :=
  (if is32Bit then none else own infoBundleLibraries64Key fields).or
    (own infoBundleLibrariesKey fields)

def meantKeys (is32Bit : Bool) (fields : List Field) : List String :=
  ((meant is32Bit fields).getD []).reduceOption

/-- The recorded dependencies, with those that were there, are the ones that are meant. -/
def Exact (is32Bit : Bool) (fields : List Field) (before after : List String) : Prop :=
  ∀ key, key ∈ after ↔ key ∈ before ∨ key ∈ meantKeys is32Bit fields

variable {is32Bit : Bool} {stale : Option Dict} {fields : List Field}

theorem own_concat (key : String) (fields : List Field) (field : Field) :
    own key (fields ++ [field]) =
      if field.key = some key then field.value.cast else own key fields := by
  rw [own, filter_append]
  by_cases same : field.key = some key
  · simp [same]
  · simp [same, own]

/-- What the search leaves in the two variables. -/
theorem searchFields_choice {choice : Choice}
    (found : fields.foldlM (searchField is32Bit) ⟨none, stale⟩ = some choice) :
    choice.infoPlistLibraries64 = (own infoBundleLibraries64Key fields).or stale ∧
      choice.infoPlistLibraries = if is32Bit then none
        else (own infoBundleLibraries64Key fields).or
          (if stale.isSome then none else own infoBundleLibrariesKey fields) := by
  induction fields using List.reverseRecOn generalizing choice with
  | nil =>
    obtain rfl := Option.some.inj found
    cases is32Bit <;> simp [own]
  | append_singleton fields field ih =>
    rw [foldlM_append, Option.bind_eq_bind, Option.bind_eq_some_iff] at found
    obtain ⟨before, earlier, found⟩ := found
    obtain ⟨set64, set⟩ := ih earlier
    rw [foldlM_cons] at found
    obtain ⟨_, found, ⟨⟩⟩ := Option.bind_eq_some_iff.mp found
    have differ : infoBundleLibrariesKey ≠ infoBundleLibraries64Key := by decide
    rw [own_concat, own_concat]
    rw [searchField] at found
    split at found
    · next plain =>
      rw [plain, if_neg (fun same => differ (Option.some.inj same)), if_pos rfl]
      split at found
      · next looked =>
        obtain ⟨libraries, isDict, rfl⟩ := Option.map_eq_some_iff.mp found
        simp_all
      · next passed =>
        obtain rfl := Option.some.inj found
        refine ⟨set64, set.trans ?_⟩
        cases is32Bit <;> cases stale <;>
          cases own64 : own infoBundleLibraries64Key fields <;> simp_all
    · next notPlain =>
      split at found
      · next wide =>
        obtain ⟨libraries, isDict, rfl⟩ := Option.map_eq_some_iff.mp found
        rw [wide, if_pos rfl, if_neg (fun same => differ (Option.some.inj same).symm), isDict]
        cases is32Bit <;> simp_all
      · next notWide =>
        obtain rfl := Option.some.inj found
        rw [if_neg notWide, if_neg notPlain]
        exact ⟨set64, set⟩

theorem mem_addKextDependency {dependencies : List String} {identifier key : String} :
    key ∈ addKextDependency dependencies identifier ↔ key ∈ dependencies ∨ key = identifier := by
  rw [addKextDependency]
  split
  · next known => exact ⟨Or.inl, fun either => either.elim id fun same => same ▸ known⟩
  · rw [mem_append, mem_singleton]

theorem mem_addKextDependencies {dependencies : List String} {libraries : Dict} {key : String} :
    key ∈ addKextDependencies dependencies libraries ↔
      key ∈ dependencies ∨ key ∈ libraries.reduceOption := by
  rw [reduceOption_mem_iff]
  fun_induction addKextDependencies dependencies libraries with
  | case1 => simp
  | case2 => simp_all
  | case3 dependencies identifier rest ih =>
    rw [ih, mem_addKextDependency, mem_cons, Option.some_inj, or_assoc]

section

variable {before after : List String} {next : Option Dict}
  (found : searchLibraries is32Bit before stale fields = some (after, next))
include found

/-- A kext gets its own dependencies exactly when the 64-bit dictionary decides, there are
none to add, or no earlier dictionary stands in the variable. -/
theorem searchLibraries_exact_iff :
    Exact is32Bit fields before after ↔
      (is32Bit = false ∧ (own infoBundleLibraries64Key fields).isSome) ∨
      meantKeys is32Bit fields ⊆ before ∨ (is32Bit = false ∧ stale = none) := by
  obtain ⟨choice, searched, same⟩ := Option.map_eq_some_iff.mp found
  obtain ⟨rfl, -⟩ := Prod.mk.inj same
  rw [(searchFields_choice searched).2]
  have exact (libraries : Dict) : ∀ key, key ∈ addKextDependencies before libraries ↔
      key ∈ before ∨ key ∈ libraries.reduceOption := fun _ => mem_addKextDependencies
  unfold Exact meantKeys meant
  cases is32Bit with
  | true => simp [subset_def]
  | false =>
    cases own infoBundleLibraries64Key fields with
    | some libraries => simp [exact]
    | none =>
      cases stale with
      | some => simp [subset_def]
      | none =>
        cases own infoBundleLibrariesKey fields with
        | none => simp [reduceOption_nil]
        | some libraries => simp [exact]

theorem searchLibraries_after :
    next = (own infoBundleLibraries64Key fields).or stale := by
  obtain ⟨choice, searched, same⟩ := Option.map_eq_some_iff.mp found
  exact (Prod.mk.inj same).2 ▸ (searchFields_choice searched).1

end

end Own

section Directory

/-- What stands in `InfoPlistLibraries64` before a kext of the directory. -/
theorem scanExtensions_searched {is32Bit : Bool} {stale : Option Dict}
    {earlier later : List (List Field)} {fields : List Field} {dependencies : List String}
    (recorded : (scanExtensions is32Bit stale (earlier ++ fields :: later))[earlier.length]? =
      some dependencies) :
    ∃ before next, searchLibraries is32Bit [] before fields = some (dependencies, next) ∧
      (before = none ↔
        stale = none ∧ ∀ other ∈ earlier, own infoBundleLibraries64Key other = none) := by
  induction earlier generalizing stale with
  | nil =>
    rw [nil_append, scanExtensions] at recorded
    split at recorded
    · cases recorded
    · next first next found =>
      obtain rfl := Option.some.inj recorded
      exact ⟨stale, next, found, by simp⟩
  | cons other earlier ih =>
    rw [cons_append, scanExtensions] at recorded
    split at recorded
    · cases recorded
    · next first next found =>
      obtain ⟨before, after, searched, null⟩ := ih recorded
      refine ⟨before, after, searched, null.trans ?_⟩
      rw [searchLibraries_after found, Option.or_eq_none_iff, forall_mem_cons]
      tauto

/-- Each recorded kext, of a directory or injected, has its own dependencies exactly when
it uses its 64-bit dictionary or none, or when nothing stands in `InfoPlistLibraries64`. -/
theorem dependencies_exact_iff (is32Bit : Bool) (stale : Option Dict) :
    (∀ earlier fields later dependencies,
      (scanExtensions is32Bit stale (earlier ++ fields :: later))[earlier.length]? =
        some dependencies →
      (Exact is32Bit fields [] dependencies ↔
        (is32Bit = false ∧ (own infoBundleLibraries64Key fields).isSome) ∨
        meantKeys is32Bit fields = [] ∨
        (is32Bit = false ∧ stale = none ∧
          ∀ other ∈ earlier, own infoBundleLibraries64Key other = none))) ∧
    ∀ before fields after,
      cachelessContextAddKext is32Bit before stale fields = some after →
      (Exact is32Bit fields before after ↔
        (is32Bit = false ∧ (own infoBundleLibraries64Key fields).isSome) ∨
        meantKeys is32Bit fields ⊆ before ∨ (is32Bit = false ∧ stale = none)) := by
  constructor
  · intro earlier fields later dependencies recorded
    obtain ⟨before, next, searched, null⟩ := scanExtensions_searched recorded
    rw [searchLibraries_exact_iff searched, null, subset_nil]
  · intro before fields after added
    obtain ⟨⟨_, next⟩, searched, rfl⟩ := Option.map_eq_some_iff.mp added
    exact searchLibraries_exact_iff searched

def twoKexts : List (List Field) :=
  [[⟨some infoBundleLibraries64Key, .dict [some "com.apple.kpi.libkern"]⟩],
    [⟨some infoBundleLibrariesKey, .dict [some "com.apple.kpi.mach"]⟩]]

theorem dependencies_exact_first :
    Exact false (twoKexts.getD 0 []) [] ["com.apple.kpi.libkern"] :=
  ((dependencies_exact_iff false none).1 [] _ (twoKexts.drop 1) _ rfl).mpr
    (.inl ⟨rfl, rfl⟩)

theorem second_kext_unrecorded :
    scanExtensions false none twoKexts = [["com.apple.kpi.libkern"], []] ∧
      ¬ Exact false (twoKexts.getD 1 []) [] [] := by
  refine ⟨by decide, fun exact => ?_⟩
  have listed := (exact "com.apple.kpi.mach").mpr (.inr (by decide))
  exact not_mem_nil listed

end Directory

end OpenCore.CachelessLibraries
