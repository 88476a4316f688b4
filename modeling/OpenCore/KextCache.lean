import OpenCore.PrelinkedKext
import Mathlib.Data.List.Find

/-!
What a lookup does to the cache. A lookup answers with the first entry of that
identifier; if there is none it may add one at the end, made from `KextList` or,
in a kernel collection, a stub. Nothing else of the context changes.
-/

namespace OpenCore.KextCache

open Base ByteBuffer Plist PrelinkedKext List

section Heap
variable {ctx : PrelinkedContext} {kext : Kext} {ref other : KextRef}

theorem kext_lt (present : ctx.kext ref = some kext) : ref < ctx.heap.length := by
  by_contra outside
  have missing : ctx.kext ref = none := by
    simp [PrelinkedContext.kext, List.getD, getElem?_eq_none (Nat.le_of_not_lt outside)]
  rw [missing] at present
  cases present

@[simp] theorem kext_insert : (ctx.insert other).kext ref = ctx.kext ref := rfl

theorem kext_allocate_old (inside : ref < ctx.heap.length) :
    (ctx.allocate kext).kext ref = ctx.kext ref := by
  simp [PrelinkedContext.kext, PrelinkedContext.allocate, List.getD, getElem?_append_left inside]

@[simp] theorem kext_allocate_new :
    (ctx.allocate kext).kext ctx.heap.length = some kext := by
  simp [PrelinkedContext.kext, PrelinkedContext.allocate, List.getD]

theorem kext_withKext_same (inside : ref < ctx.heap.length) :
    (ctx.withKext ref kext).kext ref = some kext := by
  simp [PrelinkedContext.kext, PrelinkedContext.withKext, List.getD, inside]

theorem kext_withKext_other (different : other ≠ ref) :
    (ctx.withKext ref kext).kext other = ctx.kext other := by
  have apart : ref ≠ other := fun same => different same.symm
  simp [PrelinkedContext.kext, PrelinkedContext.withKext, List.getD, getElem?_set_ne apart]

end Heap

section Found
variable {ctx : PrelinkedContext} {identifier : Bytes} {ref : KextRef}

def Valid (ctx : PrelinkedContext) : Prop :=
  ∀ ref ∈ ctx.prelinkedKexts, ref < ctx.heap.length

theorem cachedKext_some (found : cachedKext ctx identifier = some ref) :
    ref ∈ ctx.prelinkedKexts ∧
      ∃ kext, ctx.kext ref = some kext ∧ kext.identifier.value = identifier := by
  have matched := find?_some found
  obtain ⟨kext, present, same⟩ := (Option.any_eq_true _ _).mp matched
  exact ⟨mem_of_find?_eq_some found, kext, present, of_decide_eq_true same⟩

theorem cachedKext_injective {other : Bytes} (left : cachedKext ctx other = some ref)
    (right : cachedKext ctx identifier = some ref) : other = identifier := by
  obtain ⟨_, kext, present, name⟩ := cachedKext_some left
  obtain ⟨_, kext', present', name'⟩ := cachedKext_some right
  rw [present] at present'
  cases present'
  exact name.symm.trans name'

theorem cachedKext_congr {after : PrelinkedContext}
    (list : after.prelinkedKexts = ctx.prelinkedKexts)
    (names : ∀ ref ∈ ctx.prelinkedKexts, (after.kext ref).map Kext.identifier =
      (ctx.kext ref).map Kext.identifier) :
    cachedKext after identifier = cachedKext ctx identifier := by
  unfold cachedKext
  rw [list]
  apply find?_congr
  intro ref member
  have same := names ref member
  cases before : ctx.kext ref with
  | none =>
    rw [before] at same
    simp [Option.map_eq_none_iff.mp same]
  | some kext =>
    rw [before] at same
    obtain ⟨kext', present, name⟩ := Option.map_eq_some_iff.mp same
    simp [present, name]

theorem cachedKext_added {kext : Kext} (valid : Valid ctx) :
    cachedKext ((ctx.allocate kext).insert ctx.heap.length) identifier =
      match cachedKext ctx identifier with
      | some ref => some ref
      | none => if kext.identifier.value = identifier then some ctx.heap.length else none := by
  have old : ctx.prelinkedKexts.find? (fun ref =>
      (((ctx.allocate kext).insert ctx.heap.length).kext ref).any
        fun kext => kext.identifier.value = identifier) = cachedKext ctx identifier := by
    apply find?_congr
    intro ref member
    rw [kext_insert, kext_allocate_old (valid ref member)]
  have list : ((ctx.allocate kext).insert ctx.heap.length).prelinkedKexts =
      ctx.prelinkedKexts ++ [ctx.heap.length] := rfl
  rw [cachedKext, list, find?_append, old]
  cases cachedKext ctx identifier with
  | some ref => rfl
  | none =>
    by_cases same : kext.identifier.value = identifier
    · simp [same]
    · simp [same]

end Found

section Create
variable {identifier : Bytes} {is32Bit : Bool}
variable {values : List XmlNode} {fields : KextFields}

def FoundByName (identifier : Bytes) (fields : KextFields) : Prop :=
  fields.found = true → ∃ text, fields.identifier = some text ∧ text.value = identifier

theorem createInteger_named (fields : KextFields) (key : Bytes) (value : XmlNode) :
    (createInteger fields key value).1.identifier = fields.identifier ∧
      (createInteger fields key value).1.found = fields.found := by
  have read : ∀ (modulus : Nat) (store : Nat → KextFields),
      (∀ number, (store number).identifier = fields.identifier ∧
        (store number).found = fields.found) →
      (integerField fields value modulus store).1.identifier = fields.identifier ∧
        (integerField fields value modulus store).1.found = fields.found := by
    intro modulus store kept
    unfold integerField
    split
    · exact ⟨rfl, rfl⟩
    · exact kept _
  unfold createInteger
  repeat' split
  all_goals first
    | exact read _ _ fun _ => ⟨rfl, rfl⟩
    | exact ⟨rfl, rfl⟩

theorem createField_named (prelinked is32Bit : Bool) (fields : KextFields) (key : Bytes)
    (value : XmlNode) (named : FoundByName identifier fields) :
    FoundByName identifier
      (createField prelinked (some identifier) is32Bit fields key value).1 := by
  unfold createField
  split
  · rename_i fresh
    have notFound : fields.found = false := by
      cases found : fields.found with
      | false => rfl
      | true =>
        obtain ⟨text, present, _⟩ := named found
        simp [present] at fresh
    unfold createIdentifier
    simp only
    split
    · intro found
      simp [notFound] at found
    · intro found
      simp only [notFound, Bool.false_or, decide_eq_true_eq] at found
      obtain ⟨text, present, same⟩ := Option.map_eq_some_iff.mp found
      exact ⟨text, present, same⟩
  · -- No other branch touches the identifier or the mark.
    repeat' split
    all_goals first
      | exact named
      | exact fun found => by
          obtain ⟨kept, mark⟩ := createInteger_named fields key value
          rw [mark] at found
          rw [kept]
          exact named found

theorem createFields_named (prelinked is32Bit : Bool) (entries : List (XmlNode × XmlNode))
    (fields : KextFields) (named : FoundByName identifier fields) :
    FoundByName identifier
      (createFields prelinked (some identifier) is32Bit entries fields) := by
  induction entries generalizing fields with
  | nil => exact named
  | cons entry rest ih =>
    obtain ⟨key, value⟩ := entry
    cases name : plistKeyValue key with
    | none =>
      simp only [createFields, name]
      exact ih fields named
    | some text =>
      have next := createField_named prelinked is32Bit fields text.value value named
      simp only [createFields, name]
      split
      · exact next
      · exact ih _ next

structure CollectedFrom (values : List XmlNode) (fields : KextFields) : Prop where
  identifier : ∀ text, fields.identifier = some text →
    ∃ value ∈ values, xmlNodeContent value = some text
  compatibleVersion : ∀ text, fields.compatibleVersion = some text →
    ∃ value ∈ values, xmlNodeContent value = some text
  bundleLibraries : ∀ node, fields.bundleLibraries = some node → node ∈ values

theorem createInteger_collected (key : Bytes)
    (value : XmlNode) (collected : CollectedFrom values fields) :
    CollectedFrom values (createInteger fields key value).1 := by
  obtain ⟨identifier, compatibleVersion, bundleLibraries⟩ := collected
  unfold createInteger integerField
  repeat' split
  all_goals exact ⟨identifier, compatibleVersion, bundleLibraries⟩

theorem createField_collected (prelinked is32Bit : Bool) (wanted : Option Bytes) (key : Bytes)
    {value : XmlNode} (listed : value ∈ values) (collected : CollectedFrom values fields) :
    CollectedFrom values (createField prelinked wanted is32Bit fields key value).1 := by
  have own : ∀ text, xmlNodeContent value = some text →
      ∃ other ∈ values, xmlNodeContent other = some text :=
    fun text content => ⟨value, listed, content⟩
  have self : ∀ node, some value = some node → node ∈ values := by
    intro node same
    cases same
    exact listed
  have integers := createInteger_collected key value collected
  obtain ⟨identifier, compatibleVersion, bundleLibraries⟩ := collected
  unfold createField
  split
  · unfold createIdentifier
    simp only
    split
    · exact ⟨own, compatibleVersion, bundleLibraries⟩
    · exact ⟨own, compatibleVersion, bundleLibraries⟩
  · split
    · split
      · exact ⟨identifier, compatibleVersion, bundleLibraries⟩
      · exact ⟨identifier, compatibleVersion, self⟩
    · split
      · split
        · exact ⟨identifier, compatibleVersion, bundleLibraries⟩
        · exact ⟨identifier, compatibleVersion, self⟩
      · split
        · split
          · exact ⟨identifier, compatibleVersion, bundleLibraries⟩
          · exact ⟨identifier, own, bundleLibraries⟩
        · split
          · exact integers
          · exact ⟨identifier, compatibleVersion, bundleLibraries⟩

theorem createFields_collected (prelinked is32Bit : Bool) (wanted : Option Bytes)
    (entries : List (XmlNode × XmlNode)) (fields : KextFields)
    (listed : ∀ entry ∈ entries, entry.2 ∈ values) (collected : CollectedFrom values fields) :
    CollectedFrom values (createFields prelinked wanted is32Bit entries fields) := by
  induction entries generalizing fields with
  | nil => exact collected
  | cons entry rest ih =>
    obtain ⟨key, value⟩ := entry
    have restListed : ∀ other ∈ rest, other.2 ∈ values :=
      fun other member => listed other (by simp [member])
    cases name : plistKeyValue key with
    | none =>
      simp only [createFields, name]
      exact ih fields restListed collected
    | some text =>
      have next := createField_collected prelinked is32Bit wanted text.value
        (listed (key, value) (by simp)) collected
      simp only [createFields, name]
      split
      · exact next
      · exact ih _ restListed next

theorem initialFields_collected (values : List XmlNode) (wanted : Option Bytes) :
    CollectedFrom values (initialFields wanted) := by
  refine ⟨?_, ?_, ?_⟩
  · intro text present
    cases present
  · intro text present
    cases present
  · intro node present
    cases present

end Create

def dictValues (node : XmlNode) : List XmlNode := (plistDictChildren node).map Prod.snd

structure KextFrom (values : List XmlNode) (kext : Kext) : Prop where
  identifier : ∃ value ∈ values, xmlNodeContent value = some kext.identifier
  compatibleVersion : ∀ text, kext.compatibleVersion = some text →
    ∃ value ∈ values, xmlNodeContent value = some text
  bundleLibraries : ∀ node, kext.bundleLibraries = some node → node ∈ values

theorem plistNodeCast_dict {node plist : XmlNode} (cast : plistNodeCast node .dict = some plist) :
    plist = node := by
  simp only [plistNodeCast, plistNodeTypes] at cast
  split at cast
  · cases cast
  · split at cast
    · exact (Option.some.inj cast).symm
    · cases cast

section Lookup
variable (env : Externals) {ctx : PrelinkedContext}
variable {kextPlist : XmlNode}

section

variable {identifier : Bytes} {kext : Kext}
  (created : internalCreatePrelinkedKext env ctx kextPlist identifier = some kext)
include created

theorem internalCreatePrelinkedKext_fields :
    ∃ fields, fields = createFields true (some identifier) ctx.is32Bit
        (plistDictChildren kextPlist) (initialFields (some identifier)) ∧
      fields.found = true ∧ fields.identifier = some kext.identifier ∧
      kext.bundleLibraries = fields.bundleLibraries ∧
      kext.compatibleVersion = fields.compatibleVersion := by
  unfold internalCreatePrelinkedKext at created
  generalize collected : createFields true (some identifier) ctx.is32Bit
    (plistDictChildren kextPlist) (initialFields (some identifier)) = fields at created
  refine ⟨fields, rfl, ?_⟩
  simp only at created
  cases present : fields.identifier with
  | none =>
    rw [present] at created
    cases created
  | some text =>
    rw [present] at created
    simp only at created
    split at created
    · cases created
    · rename_i accepted
      have found : fields.found = true := by
        cases mark : fields.found with
        | true => rfl
        | false => simp [mark] at accepted
      split at created
      · cases created
      · obtain ⟨window, _, created⟩ := Option.bind_eq_some_iff.mp created
        split at created
        · cases created
        · split at created
          · cases created
          · cases created
            exact ⟨found, rfl, rfl, rfl⟩

theorem internalCreatePrelinkedKext_from :
    KextFrom (dictValues kextPlist) kext := by
  obtain ⟨fields, fieldsEq, _, name, libraries, version⟩ :=
    internalCreatePrelinkedKext_fields env created
  have collected : CollectedFrom (dictValues kextPlist) fields := by
    rw [fieldsEq]
    apply createFields_collected
    · intro entry member
      exact mem_map.mpr ⟨entry, member, rfl⟩
    · exact initialFields_collected _ _
  refine ⟨collected.identifier _ name, ?_, ?_⟩
  · rw [version]
    exact collected.compatibleVersion
  · rw [libraries]
    exact collected.bundleLibraries

theorem internalCreatePrelinkedKext_named :
    kext.identifier.value = identifier := by
  obtain ⟨fields, fieldsEq, found, name, _, _⟩ := internalCreatePrelinkedKext_fields env created
  have named : FoundByName identifier fields := by
    rw [fieldsEq]
    apply createFields_named
    intro marked
    cases marked
  obtain ⟨text, present, value⟩ := named found
  rw [name] at present
  cases present
  exact value

end

theorem listedKext_named {identifier : Bytes} {kext : Kext}
    (listed : listedKext env ctx identifier = some kext) :
    kext.identifier.value = identifier := by
  obtain ⟨node, _, made⟩ := exists_of_findSome?_eq_some listed
  obtain ⟨plist, _, created⟩ := Option.bind_eq_some_iff.mp made
  exact internalCreatePrelinkedKext_named env created

theorem listedKext_from {identifier : Bytes} {kext : Kext}
    (listed : listedKext env ctx identifier = some kext) :
    ∃ node ∈ ctx.kextList, KextFrom (dictValues node) kext := by
  obtain ⟨node, member, made⟩ := exists_of_findSome?_eq_some listed
  obtain ⟨plist, cast, created⟩ := Option.bind_eq_some_iff.mp made
  have same := plistNodeCast_dict cast
  subst same
  exact ⟨plist, member, internalCreatePrelinkedKext_from env created⟩

theorem freshKext_named {identifier : Text} {kext : Kext}
    (fresh : freshKext env ctx identifier = some kext) :
    kext.identifier.value = identifier.value := by
  unfold freshKext at fresh
  cases listed : listedKext env ctx identifier.value with
  | some made =>
    rw [listed] at fresh
    cases fresh
    exact listedKext_named env listed
  | none =>
    rw [listed] at fresh
    simp only at fresh
    split at fresh
    · cases fresh
      rfl
    · cases fresh

theorem lookup_cases (ctx : PrelinkedContext) (identifier : Text) :
    (∃ ref, cachedKext ctx identifier.value = some ref ∧
      internalCachedPrelinkedKext env ctx identifier = (some ref, ctx)) ∨
    (cachedKext ctx identifier.value = none ∧ freshKext env ctx identifier = none ∧
      internalCachedPrelinkedKext env ctx identifier = (none, ctx)) ∨
    (∃ kext, cachedKext ctx identifier.value = none ∧ freshKext env ctx identifier = some kext ∧
      internalCachedPrelinkedKext env ctx identifier =
        (some ctx.heap.length, (ctx.allocate kext).insert ctx.heap.length)) := by
  unfold internalCachedPrelinkedKext
  cases cached : cachedKext ctx identifier.value with
  | some ref => exact Or.inl ⟨ref, rfl, rfl⟩
  | none =>
    cases fresh : freshKext env ctx identifier with
    | none => exact Or.inr (Or.inl ⟨rfl, rfl, rfl⟩)
    | some kext => exact Or.inr (Or.inr ⟨kext, rfl, rfl, rfl⟩)

end Lookup

section Same

variable {before after : PrelinkedContext}

def Persists (before after : PrelinkedContext) : Prop :=
  ∀ identifier ref, cachedKext before identifier = some ref →
    cachedKext after identifier = some ref

theorem Persists.trans {first second third : PrelinkedContext} (left : Persists first second)
    (right : Persists second third) : Persists first third :=
  fun identifier ref found => right identifier ref (left identifier ref found)

structure SameEntries (before after : PrelinkedContext) : Prop where
  frame : after = { before with heap := after.heap, linkSteps := after.linkSteps }
  size : after.heap.length = before.heap.length
  cells : ∀ ref, (after.kext ref).map (fun kext => (kext.identifier, kext.bundleLibraries)) =
    (before.kext ref).map fun kext => (kext.identifier, kext.bundleLibraries)

section

variable (same : SameEntries before after)
include same

theorem SameEntries.cell {ref : KextRef} {kext : Kext} (present : after.kext ref = some kext) :
    ∃ old, before.kext ref = some old ∧ old.identifier = kext.identifier ∧
      old.bundleLibraries = kext.bundleLibraries := by
  have cells := same.cells ref
  rw [present] at cells
  obtain ⟨old, found, pair⟩ := Option.map_eq_some_iff.mp cells.symm
  exact ⟨old, found, congrArg Prod.fst pair, congrArg Prod.snd pair⟩

theorem SameEntries.libraries (ref : KextRef) :
    (after.kext ref).bind Kext.bundleLibraries = (before.kext ref).bind Kext.bundleLibraries := by
  have cells := congrArg (fun cell => cell.bind Prod.snd) (same.cells ref)
  simpa [Option.bind_map, Function.comp_def] using cells

theorem SameEntries.symm :
    SameEntries after before := by
  refine ⟨?_, same.size.symm, fun ref => (same.cells ref).symm⟩
  rw [same.frame]

theorem SameEntries.cached
    (identifier : Bytes) : cachedKext after identifier = cachedKext before identifier := by
  apply cachedKext_congr
  · rw [same.frame]
  · intro ref _
    have cells := congrArg (Option.map Prod.fst) (same.cells ref)
    simpa [Option.map_map, Function.comp_def] using cells

theorem SameEntries.persists :
    Persists before after := by
  intro identifier ref found
  rw [same.cached]
  exact found

end

section

variable (ctx : PrelinkedContext)
include ctx

theorem setDependency_same (ref index other : Nat) :
    SameEntries ctx (ctx.setDependency ref index other) := by
  unfold PrelinkedContext.setDependency
  cases present : ctx.kext ref with
  | none => exact ⟨rfl, rfl, fun _ => rfl⟩
  | some kext =>
    refine ⟨rfl, by simp [PrelinkedContext.withKext], ?_⟩
    intro cell
    by_cases here : cell = ref
    · subst here
      simp [kext_withKext_same (kext_lt present), present]
    · simp [kext_withKext_other here]

theorem linkSteps_same (steps : Nat) :
    SameEntries ctx { ctx with linkSteps := steps } :=
  ⟨rfl, rfl, fun _ => rfl⟩

theorem clearLibraries_cell (ref cell : KextRef) {kext : Kext}
    (present : (ctx.clearLibraries ref).kext cell = some kext) :
    ∃ old, ctx.kext cell = some old ∧ old.identifier = kext.identifier ∧
      (cell ≠ ref ∧ old.bundleLibraries = kext.bundleLibraries ∨
        cell = ref ∧ kext.bundleLibraries = none) := by
  unfold PrelinkedContext.clearLibraries at present
  cases found : ctx.kext ref with
  | none =>
    rw [found] at present
    refine ⟨kext, present, rfl, Or.inl ⟨?_, rfl⟩⟩
    intro same
    rw [same] at present
    simp only [found] at present
    cases present
  | some old =>
    rw [found] at present
    simp only at present
    by_cases here : cell = ref
    · subst here
      rw [kext_withKext_same (kext_lt found)] at present
      cases present
      exact ⟨old, found, rfl, Or.inr ⟨rfl, rfl⟩⟩
    · rw [kext_withKext_other here] at present
      exact ⟨kext, present, rfl, Or.inl ⟨here, rfl⟩⟩

theorem clearLibraries_names (ref cell : KextRef) :
    ((ctx.clearLibraries ref).kext cell).map Kext.identifier =
      (ctx.kext cell).map Kext.identifier := by
  unfold PrelinkedContext.clearLibraries
  cases found : ctx.kext ref with
  | none => rfl
  | some old =>
    by_cases here : cell = ref
    · subst here
      simp [kext_withKext_same (kext_lt found), found]
    · simp [kext_withKext_other here]

theorem clearLibraries_frame (ref : KextRef) :
    ctx.clearLibraries ref = { ctx with heap := (ctx.clearLibraries ref).heap } ∧
    (ctx.clearLibraries ref).heap.length = ctx.heap.length := by
  unfold PrelinkedContext.clearLibraries
  cases ctx.kext ref with
  | none => exact ⟨rfl, rfl⟩
  | some kext => exact ⟨rfl, by simp [PrelinkedContext.withKext]⟩

theorem clearLibraries_cached (ref : KextRef) (identifier : Bytes) :
    cachedKext (ctx.clearLibraries ref) identifier = cachedKext ctx identifier := by
  apply cachedKext_congr
  · rw [(clearLibraries_frame ctx ref).1]
  · intro cell _
    exact clearLibraries_names ctx ref cell

theorem clearLibraries_persists (ref : KextRef) :
    Persists ctx (ctx.clearLibraries ref) := by
  intro identifier cell found
  rw [clearLibraries_cached]
  exact found

end

end Same

section Scan
variable (env : Externals) {Inv : PrelinkedContext → Prop} {Good : Text → Prop}
variable {collection : Bool}

/-- An invariant of the steps of a scan. `Good` is what the invariant says of
the library keys that are looked up; `collection` is the mode of the image. -/
structure ScanInvariant (Inv : PrelinkedContext → Prop) (Good : Text → Prop)
    (collection : Bool) : Prop where
  mode : ∀ ctx, Inv ctx → ctx.isKernelCollection = collection
  keys : ∀ ctx ref kext libraries, Inv ctx → ctx.kext ref = some kext →
    kext.bundleLibraries = some libraries → ∀ text ∈ plistDictKeys libraries,
    (collection && isKpi text.value) = false → Good text
  quirk : Good (literal hidFamily)
  lookup : ∀ ctx text, Inv ctx → Good text →
    Inv (internalCachedPrelinkedKext env ctx text).2
  kernel : ∀ ctx, Inv ctx → Inv (internalCachedPrelinkedKernel env ctx).2
  dependency : ∀ ctx ref index other, Inv ctx → Inv (ctx.setDependency ref index other)
  clear : ∀ ctx ref, Inv ctx → Inv (ctx.clearLibraries ref)
  linked : ∀ ctx steps, Inv ctx → Inv { ctx with linkSteps := steps }

def Keeps (Inv : PrelinkedContext → Prop) (scan : Scan) : Prop :=
  ∀ ref ctx status after, Inv ctx → scan ref ctx = some (status, after) → Inv after

variable (rule : ScanInvariant env Inv Good collection)
include rule

theorem dependencyKext_keeps (ctx : PrelinkedContext) (text : Text) (start : Inv ctx)
    (good : Good text) : Inv (dependencyKext env ctx text).2 := by
  have looked := rule.lookup ctx text start good
  unfold dependencyKext
  cases result : internalCachedPrelinkedKext env ctx text with
  | mk found after =>
    rw [result] at looked
    cases found with
    | some ref => exact looked
    | none =>
      simp only [internalGetQuirkDependencyKext]
      split
      · exact rule.lookup after _ looked rule.quirk
      · exact looked

section

variable (scan : Scan) (keeps : Keeps Inv scan)
include scan keeps

theorem insertDependency_keeps (ref index other : Nat)
    (ctx after : PrelinkedContext) (status : EfiStatus) (start : Inv ctx)
    (done : internalInsertPrelinkedKextDependency scan ref index other ctx =
      some (status, after)) : Inv after := by
  unfold internalInsertPrelinkedKextDependency at done
  split at done
  · cases done
    exact start
  · obtain ⟨⟨inner, middle⟩, ran, same⟩ := Option.map_eq_some_iff.mp done
    have kept := keeps other ctx inner middle start ran
    simp only at same
    split at same
    · cases same
      exact kept
    · cases same
      exact rule.dependency middle ref index other kept

theorem scanLibraries_keeps (ref : KextRef)
    (keys : List Text) (index : Nat) (ctx after : PrelinkedContext) (status : EfiStatus)
    (good : ∀ text ∈ keys, (collection && isKpi text.value) = false → Good text) (start : Inv ctx)
    (done : scanLibraries env scan ref keys index ctx = some (status, after)) :
    Inv after := by
  induction keys generalizing index ctx with
  | nil =>
    cases done
    exact start
  | cons text rest ih =>
    have goodRest : ∀ other ∈ rest, (collection && isKpi other.value) = false → Good other :=
      fun other member => good other (by simp [member])
    unfold scanLibraries at done
    rw [rule.mode ctx start] at done
    split at done
    · exact ih index ctx goodRest start done
    · rename_i taken
      have looked := dependencyKext_keeps env rule ctx text start
        (good text (by simp) (Bool.eq_false_iff.mpr taken))
      cases result : dependencyKext env ctx text with
      | mk found middle =>
        rw [result] at done looked
        cases found with
        | none => exact ih index middle goodRest looked done
        | some other =>
          obtain ⟨⟨inner, inserted⟩, ran, rested⟩ := Option.bind_eq_some_iff.mp done
          have kept := insertDependency_keeps env rule scan keeps ref index other
            middle inserted inner looked ran
          simp only at rested
          split at rested
          · cases rested
            exact kept
          · exact ih (index + 1) inserted goodRest kept rested

theorem scanKernel_keeps (ref : KextRef)
    (ctx after : PrelinkedContext) (status : EfiStatus) (start : Inv ctx)
    (done : scanKernel env scan ref ctx = some (status, after)) : Inv after := by
  have found := rule.kernel ctx start
  unfold scanKernel at done
  cases result : internalCachedPrelinkedKernel env ctx with
  | mk kernel middle =>
    rw [result] at done found
    cases kernel with
    | none =>
      cases done
      exact found
    | some kernel =>
      simp only at done
      split at done
      · cases done
        exact found
      · exact insertDependency_keeps env rule scan keeps ref 0 kernel middle after status
          found done

theorem scanBundleLibraries_keeps (ref : KextRef)
    (ctx after : PrelinkedContext) (status : EfiStatus) (start : Inv ctx)
    (done : scanBundleLibraries env scan ref ctx = some (status, after)) :
    Inv after := by
  unfold scanBundleLibraries at done
  cases libraries : (ctx.kext ref).bind Kext.bundleLibraries with
  | none =>
    rw [libraries] at done
    cases done
    exact start
  | some node =>
    rw [libraries] at done
    obtain ⟨kext, present, listed⟩ := Option.bind_eq_some_iff.mp libraries
    obtain ⟨⟨inner, middle⟩, ran, same⟩ := Option.map_eq_some_iff.mp done
    have kept := scanLibraries_keeps env rule scan keeps ref _ 1 ctx middle inner
      (rule.keys ctx ref kext node start present listed) start ran
    simp only at same
    split at same
    · cases same
      exact kept
    · cases same
      exact rule.clear middle ref kept

end

theorem scan_keeps (fuel : Nat) (ref : KextRef) (dependency : Bool)
    (ctx after : PrelinkedContext) (status : EfiStatus) (start : Inv ctx)
    (done : internalScanPrelinkedKext env fuel ref dependency ctx =
      some (status, after)) : Inv after := by
  induction fuel generalizing ref dependency ctx after status with
  | zero => cases done
  | succ fuel ih =>
    have keeps : Keeps Inv (fun other current =>
        internalScanPrelinkedKext env fuel other true current) :=
      fun other current inner next begin ran => ih other true current next inner begin ran
    unfold internalScanPrelinkedKext at done
    obtain ⟨⟨kernelStatus, withKernel⟩, first, done⟩ := Option.bind_eq_some_iff.mp done
    have kernelKept := scanKernel_keeps env rule _ keeps ref ctx withKernel
      kernelStatus start first
    simp only at done
    split at done
    · cases done
      exact kernelKept
    · obtain ⟨⟨inner, middle⟩, ran, same⟩ := Option.map_eq_some_iff.mp done
      have kept := scanBundleLibraries_keeps env rule _ keeps ref withKernel middle inner
        kernelKept ran
      simp only at same
      split at same
      · cases same
        exact kept
      · cases same
        exact rule.linked middle _ kept

end Scan

section Sample

def sampleNode (name : String) (content : Option String) (children : List XmlNode) : XmlNode :=
  .mk ⟨ascii name, .prelinkedInfo⟩ none (content.map fun text => ⟨ascii text, .prelinkedInfo⟩) none
    children

def sampleKextDict (identifier : String) (libraries : List String) : XmlNode :=
  sampleNode "dict" none [
    sampleNode "key" (some "CFBundleIdentifier") [], sampleNode "string" (some identifier) [],
    sampleNode "key" (some "OSBundleLibraries") [],
    sampleNode "dict" none (libraries.flatMap fun library =>
      [sampleNode "key" (some library) [], sampleNode "string" (some "1") []]),
    sampleNode "key" (some "_PrelinkExecutableLoadAddr") [],
    sampleNode "integer" (some "0x1000") [],
    sampleNode "key" (some "_PrelinkExecutableSourceAddr") [],
    sampleNode "integer" (some "0x1000") [],
    sampleNode "key" (some "_PrelinkExecutableSize") [],
    sampleNode "integer" (some "0x1000") []]

def sampleContext (isKernelCollection : Bool) (kextList : List XmlNode) : PrelinkedContext where
  collection := {
    prelinked := replicate 0x8000 0
    kextsFileOffset := 0
    kextsVmAddress := 0
    kextsFixupChainsOffset := 0
    kextsFixupChains := ⟨0, 0, 0, 0, 0, 0, []⟩ }
  written := []
  prelinkedSize := 0x2000
  prelinkedAllocSize := 0x8000
  prelinkedLastAddress := 0x3000
  prelinkedLastLoadAddress := 0x3000
  is32Bit := false
  isKernelCollection := isKernelCollection
  baseSegment := ⟨0, 72, 0x1000, 0x2000, 0, 0x2000⟩
  textSegment := ⟨0, 72, 0x1000, 0x2000, 0, 0x2000⟩
  textSectionSize := 0x2000
  prelinkedMachContext := ⟨0, 0x2000, 0, 0x2000⟩
  innerMachContext := ⟨0, 0x2000, 0x1000, 0x1000⟩
  kextList := kextList
  heap := []
  prelinkedKexts := []
  injectedKexts := []
  pooledBuffers := []
  linkSteps := 0

def sampleExternals : Externals where
  kcGetKextSize := fun _ _ => 0
  machoInitializeContext := fun _ _ => true
  kernelVirtualBase := fun _ => some 0x1000
  entryPool := fun _ => true
  linkStep := fun _ _ _ => .success

def sampleBoot (isKernelCollection : Bool) (kextList : List XmlNode) : PrelinkedContext :=
  (internalCachedPrelinkedKernel sampleExternals (sampleContext isKernelCollection kextList)).2

end Sample

end OpenCore.KextCache
