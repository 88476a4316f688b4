import OpenCore.KextCache
import OpenCore.PrelinkedInject

/-!
What the stages of an injection leave alone. Up to the linked kext only the
entries, the bytes and the pool change, and the list of entries grows at its
end, by what lookups found. Behind the scan only the cell of the new kext is
written.
-/

namespace OpenCore.InjectFrame

open Base ByteBuffer Plist PrelinkedKext KextCache PrelinkedInject

section Frame
variable {before middle after : PrelinkedContext}

/-- The layout, `KextList` and the injected kexts are as they were. -/
structure Unmoved (before after : PrelinkedContext) : Prop where
  frame : after = { before with
    collection := { before.collection with prelinked := after.collection.prelinked }
    written := after.written
    heap := after.heap
    prelinkedKexts := after.prelinkedKexts
    pooledBuffers := after.pooledBuffers
    linkSteps := after.linkSteps }
  size : before.heap.length ≤ after.heap.length

theorem Unmoved.refl (ctx : PrelinkedContext) : Unmoved ctx ctx :=
  ⟨rfl, le_refl _⟩

theorem Unmoved.trans (left : Unmoved before middle) (right : Unmoved middle after) :
    Unmoved before after := by
  refine ⟨?_, left.size.trans right.size⟩
  rw [right.frame, left.frame]

theorem Unmoved.of_frame (size : after.heap.length = before.heap.length) (frame : after = { before with
      collection := { before.collection with prelinked := after.collection.prelinked }
      written := after.written
      heap := after.heap
      pooledBuffers := after.pooledBuffers
      linkSteps := after.linkSteps }) : Unmoved before after := by
  refine ⟨?_, size.ge⟩
  rw [frame]

def Painted (before after : PrelinkedContext) : Prop :=
  after = { before with
    collection := { before.collection with prelinked := after.collection.prelinked }
    written := after.written }

theorem Painted.trans (left : Painted before middle) (right : Painted middle after) :
    Painted before after := by
  unfold Painted at left right ⊢
  rw [right, left]

theorem Painted.unmoved (painted : Painted before after) : Unmoved before after := by
  apply Unmoved.of_frame
  · rw [painted]
  · rw [painted]

theorem write_painted (ctx : PrelinkedContext) (offset : Nat) (data : Bytes) :
    Painted ctx (ctx.write offset data) := rfl

theorem writeAll_painted (ctx : PrelinkedContext) (base : Nat) (writes : Writes) :
    Painted ctx (writeAll ctx base writes) := by
  unfold writeAll
  induction writes generalizing ctx with
  | nil => rfl
  | cons entry rest ih => exact (write_painted ctx _ _).trans (ih _)

structure CellsKept (ref : KextRef) (before after : PrelinkedContext) : Prop where
  list : after.prelinkedKexts = before.prelinkedKexts
  size : after.heap.length = before.heap.length
  cells : ∀ other, other ≠ ref → after.kext other = before.kext other

theorem CellsKept.refl (ref : KextRef) (ctx : PrelinkedContext) :
    CellsKept ref ctx ctx :=
  ⟨rfl, rfl, fun _ _ => rfl⟩

theorem CellsKept.trans {ref : KextRef} (left : CellsKept ref before middle)
    (right : CellsKept ref middle after) : CellsKept ref before after := by
  refine ⟨right.list.trans left.list, right.size.trans left.size, ?_⟩
  intro other different
  rw [right.cells other different, left.cells other different]

theorem Painted.cellsKept (painted : Painted before after) (ref : KextRef) :
    CellsKept ref before after := by
  rw [painted]
  exact ⟨rfl, rfl, fun _ _ => rfl⟩

theorem withKext_cellsKept (ctx : PrelinkedContext) (ref : KextRef) (kext : Kext) :
    CellsKept ref ctx (ctx.withKext ref kext) :=
  ⟨rfl, by simp [PrelinkedContext.withKext], fun _ different => kext_withKext_other different⟩

theorem free_cellsKept (ctx : PrelinkedContext) (ref : KextRef) :
    CellsKept ref ctx (ctx.free ref) := by
  refine ⟨rfl, by simp [PrelinkedContext.free], ?_⟩
  intro other different
  have apart : ref ≠ other := fun same => different same.symm
  simp [PrelinkedContext.kext, PrelinkedContext.free, List.getD, List.getElem?_set_ne apart]

end Frame

section Scan
variable (env : Externals) (wanted : Option Text)
variable {before middle after : PrelinkedContext} {ref : KextRef}

/-- The identifiers that are looked up from `before` on: the one of the request,
the library keys of a kext, and the replacement of a key by a quirk. -/
def Asked (before : PrelinkedContext) (identifier : Text) : Prop :=
  wanted = some identifier ∨ identifier = literal hidFamily ∨
    ∃ current ref kext libraries, Unmoved before current ∧ current.kext ref = some kext ∧
      kext.bundleLibraries = some libraries ∧ identifier ∈ plistDictKeys libraries

/-- What a lookup in this context puts into a new cell: a dict of `KextList`, a
stub, or the kernel for an empty list. -/
inductive MadeByLookup (before ctx : PrelinkedContext) : Kext → Prop where
  | kext (identifier : Text) (kext : Kext) (asked : Asked wanted before identifier)
      (missing : cachedKext ctx identifier.value = none)
      (fresh : freshKext env ctx identifier = some kext) :
      MadeByLookup before ctx kext
  | kernel (virtualBase : Nat) (first : ctx.prelinkedKexts = [])
      (read : env.kernelVirtualBase ctx.collection.prelinked = some virtualBase) :
      MadeByLookup before ctx (kernelKext ctx virtualBase)

/-- The cell is that kext up to what a scan sets in it. -/
def Holds (ctx : PrelinkedContext) (ref : KextRef) (kext : Kext) : Prop :=
  ∃ libraries dependencies, ctx.kext ref =
    some { kext with bundleLibraries := libraries, dependencies := dependencies }

variable {kext : Kext}

theorem Holds.of_present (present : after.kext ref = some kext) :
    Holds after ref kext := ⟨_, _, present⟩

/-- The entry is the new cell of a lookup on the way from `before`, and in
`after` the cell still is what that lookup made. -/
def FoundByLookup (before after : PrelinkedContext) (ref : KextRef) : Prop :=
  ∃ current kext, Unmoved before current ∧ MadeByLookup env wanted before current kext ∧
    ref = current.heap.length ∧ Holds after ref kext

structure LookedUp (before after : PrelinkedContext) : Prop extends Unmoved before after where
  retains : ∀ ref kext, before.kext ref = some kext → Holds after ref kext
  grown : ∃ added, after.prelinkedKexts = before.prelinkedKexts ++ added ∧
    ∀ ref ∈ added, FoundByLookup env wanted before after ref

variable {env} {wanted}

theorem Asked.mono {identifier : Text} (moved : Unmoved before middle)
    (asked : Asked wanted middle identifier) : Asked wanted before identifier := by
  refine asked.imp_right (Or.imp_right ?_)
  rintro ⟨current, ref, kext, libraries, later, present⟩
  exact ⟨current, ref, kext, libraries, moved.trans later, present⟩

theorem MadeByLookup.mono {current : PrelinkedContext} (moved : Unmoved before middle)
    (made : MadeByLookup env wanted middle current kext) :
    MadeByLookup env wanted before current kext := by
  cases made with
  | kext identifier kext asked missing fresh => exact .kext identifier kext (asked.mono moved) missing fresh
  | kernel virtualBase first read => exact .kernel virtualBase first read

theorem LookedUp.holds (grown : LookedUp env wanted before after)
    (held : Holds before ref kext) : Holds after ref kext := by
  obtain ⟨_, _, present⟩ := held
  obtain ⟨libraries, dependencies, found⟩ := grown.retains ref _ present
  exact ⟨libraries, dependencies, found⟩

theorem LookedUp.of_unmoved (unmoved : Unmoved before after)
    (retains : ∀ ref kext, before.kext ref = some kext → Holds after ref kext)
    (list : after.prelinkedKexts = before.prelinkedKexts) : LookedUp env wanted before after :=
  ⟨unmoved, retains, [], by simp [list]⟩

theorem LookedUp.refl (ctx : PrelinkedContext) : LookedUp env wanted ctx ctx :=
  .of_unmoved (Unmoved.refl ctx) (fun _ _ => Holds.of_present) rfl

theorem LookedUp.trans (left : LookedUp env wanted before middle)
    (right : LookedUp env wanted middle after) : LookedUp env wanted before after := by
  obtain ⟨first, firstEq, firstFound⟩ := left.grown
  obtain ⟨second, secondEq, secondFound⟩ := right.grown
  refine ⟨left.toUnmoved.trans right.toUnmoved,
    fun ref kext present => right.holds (left.retains ref kext present), first ++ second, ?_, ?_⟩
  · rw [secondEq, firstEq, List.append_assoc]
  · intro ref member
    rcases List.mem_append.mp member with old | new
    · obtain ⟨current, kext, moved, made, place, held⟩ := firstFound ref old
      exact ⟨current, kext, moved, made, place, right.holds held⟩
    · obtain ⟨current, kext, moved, made, place, held⟩ := secondFound ref new
      exact ⟨current, kext, left.toUnmoved.trans moved, made.mono left.toUnmoved, place, held⟩

theorem Painted.lookedUp (painted : Painted before after) : LookedUp env wanted before after := by
  refine .of_unmoved painted.unmoved ?_ ?_
  · intro ref kext present
    rw [painted]
    exact .of_present present
  · rw [painted]

theorem allocate_unmoved (ctx : PrelinkedContext) (kext : Kext) :
    Unmoved ctx (ctx.allocate kext) :=
  ⟨rfl, by simp [PrelinkedContext.allocate]⟩

variable {ctx : PrelinkedContext}

theorem allocate_retains {kext new : Kext}
    (present : ctx.kext ref = some kext) : (ctx.allocate new).kext ref = some kext := by
  rw [kext_allocate_old (kext_lt present), present]

theorem LookedUp.made
    (start : LookedUp env wanted before ctx) (made : MadeByLookup env wanted before ctx kext) :
    LookedUp env wanted before
      ((ctx.allocate kext).insert ctx.heap.length) := by
  obtain ⟨added, addedEq, found⟩ := start.grown
  have keeps : ∀ {ref : KextRef} {old : Kext}, Holds ctx ref old →
      Holds ((ctx.allocate kext).insert ctx.heap.length) ref old :=
    fun ⟨libraries, dependencies, present⟩ => ⟨libraries, dependencies, allocate_retains present⟩
  refine ⟨start.toUnmoved.trans ⟨rfl, (allocate_unmoved ctx kext).size⟩,
    fun ref old present => keeps (start.retains ref old present),
    added ++ [ctx.heap.length], ?_, ?_⟩
  · rw [← List.append_assoc, ← addedEq]
    rfl
  · intro ref member
    rcases List.mem_append.mp member with old | new
    · obtain ⟨current, other, moved, lookup, place, held⟩ := found ref old
      exact ⟨current, other, moved, lookup, place, keeps held⟩
    · cases List.mem_singleton.mp new
      exact ⟨ctx, kext, start.toUnmoved, made, rfl, .of_present kext_allocate_new⟩

theorem LookedUp.lookup {identifier : Text} (start : LookedUp env wanted before ctx)
    (asked : Asked wanted before identifier) : LookedUp env wanted before
      (internalCachedPrelinkedKext env ctx identifier).2 := by
  rcases lookup_cases env ctx identifier with ⟨ref, _, result⟩ | ⟨_, _, result⟩ |
      ⟨kext, missing, fresh, result⟩
  · rw [result]
    exact start
  · rw [result]
    exact start
  · rw [result]
    exact start.made (.kext identifier kext asked missing fresh)

theorem LookedUp.kernel (start : LookedUp env wanted before ctx) :
    LookedUp env wanted before (internalCachedPrelinkedKernel env ctx).2 := by
  unfold internalCachedPrelinkedKernel
  split
  · exact start
  · rename_i first
    split
    · exact start
    · rename_i virtualBase read
      split
      · exact start.made (.kernel virtualBase first read)
      · exact start

theorem withKext_unmoved (ctx : PrelinkedContext) (ref : KextRef) (kext : Kext) :
    Unmoved ctx (ctx.withKext ref kext) :=
  .of_frame (by simp [PrelinkedContext.withKext]) rfl

theorem marked_lookedUp (present : ctx.kext ref = some kext) (libraries : Option XmlNode)
    (dependencies : List (Option KextRef)) :
    LookedUp env wanted ctx (ctx.withKext ref
      { kext with bundleLibraries := libraries, dependencies := dependencies }) := by
  refine .of_unmoved (withKext_unmoved ctx ref _) ?_ rfl
  intro cell old found
  by_cases here : cell = ref
  · subst here
    rw [present] at found
    cases found
    exact ⟨_, _, kext_withKext_same (kext_lt present)⟩
  · exact .of_present ((kext_withKext_other here).trans found)

theorem setDependency_lookedUp (ctx : PrelinkedContext) (ref index other : Nat) :
    LookedUp env wanted ctx (ctx.setDependency ref index other) := by
  unfold PrelinkedContext.setDependency
  cases present : ctx.kext ref with
  | none => exact LookedUp.refl ctx
  | some kext => exact marked_lookedUp present _ _

theorem clearLibraries_lookedUp (ctx : PrelinkedContext) (ref : KextRef) :
    LookedUp env wanted ctx (ctx.clearLibraries ref) := by
  unfold PrelinkedContext.clearLibraries
  cases present : ctx.kext ref with
  | none => exact LookedUp.refl ctx
  | some kext => exact marked_lookedUp present _ _

theorem scan_lookedUp (fuel : Nat) (ref : KextRef) (dependency : Bool)
    (ctx after : PrelinkedContext) (status : EfiStatus)
    (done : internalScanPrelinkedKext env fuel ref dependency ctx =
      some (status, after)) : LookedUp env wanted ctx after := by
  have rule : ScanInvariant env (fun current => LookedUp env wanted ctx current)
      (Asked wanted ctx) ctx.isKernelCollection := by
    constructor
    · intro current start
      rw [start.frame]
    · intro current ref kext libraries start present listed text member _
      exact Or.inr (Or.inr ⟨current, ref, kext, libraries, start.toUnmoved, present, listed, member⟩)
    · exact Or.inr (Or.inl rfl)
    · intro current text start asked
      exact start.lookup asked
    · intro current start
      exact start.kernel
    · intro current ref index other start
      exact start.trans (setDependency_lookedUp current ref index other)
    · intro current ref start
      exact start.trans (clearLibraries_lookedUp current ref)
    · intro current steps start
      exact start.trans (.of_unmoved (Unmoved.of_frame rfl rfl) (fun _ _ => Holds.of_present) rfl)
  exact scan_keeps env rule fuel ref dependency ctx after status (LookedUp.refl ctx)
    done

end Scan

section Link
variable (env : Injector)
variable {result : Except EfiStatus LinkedRequest} {fuel : Nat} {root : XmlNode} {ref : KextRef}
  {executable : LoadedExecutable} {ctx : PrelinkedContext} {request : InjectRequest}

theorem loadExecutable_painted (ctx : PrelinkedContext) (executable : Bytes) :
    Painted ctx (loadExecutable env ctx executable).2 := by
  have expanded := writeAll_painted ctx ctx.prelinkedSize
    (env.machoExpandImage executable
      (wrapSub u32 ctx.prelinkedAllocSize ctx.prelinkedSize)).writes
  have padded : ∀ offset data, Painted ctx ((writeAll ctx ctx.prelinkedSize
      (env.machoExpandImage executable
        (wrapSub u32 ctx.prelinkedAllocSize ctx.prelinkedSize)).writes).write offset data) :=
    fun offset data => expanded.trans (write_painted _ offset data)
  unfold loadExecutable
  simp only
  repeat' split
  all_goals first
    | rfl
    | exact expanded
    | exact padded _ _

theorem kext_free (ctx : PrelinkedContext) (ref : KextRef) :
    (ctx.free ref).kext ref = none := by
  by_cases inside : ref < ctx.heap.length
  · simp [PrelinkedContext.kext, PrelinkedContext.free, List.getD, inside]
  · simp [PrelinkedContext.kext, PrelinkedContext.free, List.getD, inside]

theorem free_unmoved (ctx : PrelinkedContext) (ref : KextRef) :
    Unmoved ctx (ctx.free ref) :=
  Unmoved.of_frame (by simp [PrelinkedContext.free]) rfl

structure OwnCell (ref : KextRef) (before after : PrelinkedContext) : Prop where
  unmoved : Unmoved before after
  kept : CellsKept ref before after

theorem OwnCell.refl (ref : KextRef) (ctx : PrelinkedContext) : OwnCell ref ctx ctx :=
  ⟨Unmoved.refl ctx, CellsKept.refl ref ctx⟩

theorem OwnCell.trans {before middle after : PrelinkedContext}
    (left : OwnCell ref before middle) (right : OwnCell ref middle after) :
    OwnCell ref before after :=
  ⟨left.unmoved.trans right.unmoved, left.kept.trans right.kept⟩

theorem Painted.ownCell {before after : PrelinkedContext} (painted : Painted before after)
    (ref : KextRef) : OwnCell ref before after :=
  ⟨painted.unmoved, painted.cellsKept ref⟩

theorem free_ownCell (ctx : PrelinkedContext) (ref : KextRef) :
    OwnCell ref ctx (ctx.free ref) :=
  ⟨free_unmoved ctx ref, free_cellsKept ctx ref⟩

theorem pooled_ownCell (ctx : PrelinkedContext) (ref : KextRef) (kext : Kext) (text : Text) :
    OwnCell ref ctx (prelinkedDependencyInsert (ctx.withKext ref kext) text) := by
  refine ⟨Unmoved.of_frame (by simp [prelinkedDependencyInsert, PrelinkedContext.withKext]) rfl, ?_⟩
  obtain ⟨list, size, cells⟩ := withKext_cellsKept ctx ref kext
  exact ⟨list, size, cells⟩

/-- The strings of a kext are in the pool and it has no libraries to look up. -/
def Detached (old new : Kext) : Prop :=
  new.identifier = ⟨old.identifier.value, .pooled⟩ ∧
    new.bundleLibraries = old.bundleLibraries ∧
    ∀ version, new.compatibleVersion = some version → version.storage = .pooled

theorem detachStrings_cases {kext : Kext}
    (inside : ref < ctx.heap.length) {result : Option PrelinkedContext} {after : PrelinkedContext}
    (done : detachStrings env ctx ref kext = (result, after)) :
    OwnCell ref ctx after ∧ ∀ detached, result = some detached → detached = after ∧
      ∃ new, after.kext ref = some new ∧ Detached kext new := by
  unfold detachStrings at done
  have named := pooled_ownCell ctx ref
    { kext with identifier := ⟨kext.identifier.value, .pooled⟩ } ⟨kext.identifier.value, .pooled⟩
  have stay : ∀ current, OwnCell ref ctx current → (none, current) = (result, after) →
      OwnCell ref ctx after ∧ ∀ detached, result = some detached → detached = after ∧
        ∃ new, after.kext ref = some new ∧ Detached kext new := by
    intro current own same
    cases same
    exact ⟨own, fun _ clash => by cases clash⟩
  split at done
  · exact stay ctx (OwnCell.refl ref ctx) done
  · split at done
    · exact stay ctx (OwnCell.refl ref ctx) done
    · simp only at done
      split at done
      · rename_i without
        cases done
        refine ⟨named, fun detached same => ⟨(Option.some.inj same).symm, _,
          kext_withKext_same inside, rfl, rfl, ?_⟩⟩
        intro version present
        rw [without] at present
        cases present
      · split at done
        · exact stay _ named done
        · split at done
          · exact stay _ named done
          · cases done
            have larger := inside
            rw [← named.kept.size] at larger
            refine ⟨named.trans (pooled_ownCell _ ref _ _), fun detached same =>
              ⟨(Option.some.inj same).symm, _, kext_withKext_same larger, rfl, rfl, ?_⟩⟩
            intro version present
            cases present
            rfl

theorem withAddresses_ownCell (ctx : PrelinkedContext) (ref virtualBase virtualKmod : Nat) :
    OwnCell ref ctx (withAddresses ctx ref virtualBase virtualKmod) := by
  unfold withAddresses
  split
  · exact OwnCell.refl ref ctx
  · exact ⟨Unmoved.of_frame (by simp [PrelinkedContext.withKext]) rfl, withKext_cellsKept ctx ref _⟩

theorem withAddresses_detached {old new : Kext}
    (virtualBase virtualKmod : Nat) (present : ctx.kext ref = some new)
    (detached : Detached old new) :
    ∃ placed, (withAddresses ctx ref virtualBase virtualKmod).kext ref = some placed ∧
      Detached old placed := by
  unfold withAddresses
  rw [present]
  exact ⟨_, kext_withKext_same (kext_lt present), detached⟩

/-- What linking does: nothing, or a scan for a new cell and then writes to that
cell, which is freed again unless the kext was linked. -/
theorem internalLinkPrelinkedKext_cases {ctx after : PrelinkedContext} {result : Option KextRef}
    (done : internalLinkPrelinkedKext env fuel ctx executable root = some (result, after)) :
    (result = none ∧ after = ctx) ∨
    ∃ kext status scanned, internalNewPrelinkedKext env.toExternals executable.machContext
        ctx.is32Bit root = some kext ∧
      internalScanPrelinkedKext env.toExternals fuel ctx.heap.length false
        (ctx.allocate kext) = some (status, scanned) ∧ OwnCell ctx.heap.length scanned after ∧
      ((result = none ∧ after.kext ctx.heap.length = none) ∨
        (result = some ctx.heap.length ∧ status = .success ∧
          ∃ new, after.kext ctx.heap.length = some new ∧
            Detached ((scanned.kext ctx.heap.length).getD kext) new)) := by
  unfold internalLinkPrelinkedKext at done
  cases made : internalNewPrelinkedKext env.toExternals executable.machContext
      ctx.is32Bit root with
  | none =>
    rw [made] at done
    cases done
    exact Or.inl ⟨rfl, rfl⟩
  | some kext =>
    rw [made] at done
    obtain ⟨⟨status, scanned⟩, ran, same⟩ := Option.map_eq_some_iff.mp done
    right
    refine ⟨kext, status, scanned, rfl, ran, ?_⟩
    have size := (@scan_lookedUp _ none fuel _ _ _ _ _ ran).size
    have inside : ctx.heap.length < scanned.heap.length := by
      have grown : (ctx.allocate kext).heap.length = ctx.heap.length + 1 := by
        simp [PrelinkedContext.allocate]
      omega
    simp only at same
    split at same
    · cases same
      exact ⟨free_ownCell scanned _, Or.inl ⟨rfl, kext_free scanned _⟩⟩
    · rename_i fine
      have success : status = .success := by
        cases status <;> simp_all [EfiStatus.isError]
      cases detaching : detachStrings env scanned ctx.heap.length
          ((scanned.kext ctx.heap.length).getD kext) with
      | mk answer detachedAfter =>
        obtain ⟨own, properties⟩ := detachStrings_cases env inside detaching
        rw [detaching] at same
        cases answer with
        | none =>
          cases same
          exact ⟨own.trans (free_ownCell _ _), Or.inl ⟨rfl, kext_free _ _⟩⟩
        | some detached =>
          obtain ⟨sameContext, new, present, isDetached⟩ := properties detached rfl
          subst sameContext
          simp only at same
          obtain ⟨placed, placedPresent, placedDetached⟩ := withAddresses_detached
            ctx.prelinkedLastLoadAddress executable.kmodAddress present isDetached
          have painted := writeAll_painted (withAddresses detached ctx.heap.length
            ctx.prelinkedLastLoadAddress executable.kmodAddress) executable.kextOffset
            (env.internalPrelinkKext (withAddresses detached ctx.heap.length
              ctx.prelinkedLastLoadAddress executable.kmodAddress) ctx.heap.length
              ctx.prelinkedLastLoadAddress executable.fileOffset).2
          have linked := (own.trans (withAddresses_ownCell detached ctx.heap.length
            ctx.prelinkedLastLoadAddress executable.kmodAddress)).trans
            (painted.ownCell ctx.heap.length)
          split at same
          · cases same
            exact ⟨linked.trans (free_ownCell _ _), Or.inl ⟨rfl, kext_free _ _⟩⟩
          · cases same
            refine ⟨linked, Or.inr ⟨rfl, success, placed, ?_, placedDetached⟩⟩
            rw [painted]
            exact placedPresent

variable {wanted : Option Text}

structure ListsKept (before after : PrelinkedContext) : Prop where
  kextList : after.kextList = before.kextList
  injectedKexts : after.injectedKexts = before.injectedKexts
  isKernelCollection : after.isKernelCollection = before.isKernelCollection

theorem ListsKept.trans {before middle after : PrelinkedContext}
    (left : ListsKept before middle) (right : ListsKept middle after) : ListsKept before after :=
  ⟨right.kextList.trans left.kextList, right.injectedKexts.trans left.injectedKexts,
    right.isKernelCollection.trans left.isKernelCollection⟩

theorem Unmoved.listsKept {before after : PrelinkedContext} (unmoved : Unmoved before after) :
    ListsKept before after := by
  refine ⟨?_, ?_, ?_⟩
  all_goals rw [unmoved.frame]

theorem withContainer_kept (ctx : PrelinkedContext) (ref : KextRef) :
    CellsKept ref ctx (withContainer ctx ref) ∧ ListsKept ctx (withContainer ctx ref) := by
  unfold withContainer
  split
  · exact ⟨CellsKept.refl ref ctx, ⟨rfl, rfl, rfl⟩⟩
  · exact ⟨withKext_cellsKept ctx ref _, ⟨rfl, rfl, rfl⟩⟩

theorem integrateKext_kept (ctx : PrelinkedContext) (ref : KextRef)
    (executable : LoadedExecutable) :
    CellsKept ref ctx (integrateKext env ctx ref executable).2 ∧
      ListsKept ctx (integrateKext env ctx ref executable).2 := by
  unfold integrateKext
  simp only
  split
  · generalize indexed : ({ advance ctx executable.alignedSize with
      collection := _, written := _ } : PrelinkedContext) = moved
    have start : CellsKept ref ctx moved ∧ ListsKept ctx moved := by
      rw [← indexed]
      exact ⟨⟨rfl, rfl, fun _ _ => rfl⟩, ⟨rfl, rfl, rfl⟩⟩
    have painted := writeAll_painted moved executable.kextOffset
      (env.kcKextApplyFileDelta moved executable.machContext executable.kextOffset).2
    have cells := start.1.trans (painted.cellsKept ref)
    have lists := start.2.trans painted.unmoved.listsKept
    split
    · exact ⟨cells, lists⟩
    · obtain ⟨own, kept⟩ := withContainer_kept (writeAll moved executable.kextOffset
        (env.kcKextApplyFileDelta moved executable.machContext executable.kextOffset).2) ref
      exact ⟨cells.trans own, lists.trans kept⟩
  · exact ⟨⟨rfl, rfl, fun _ _ => rfl⟩, ⟨rfl, rfl, rfl⟩⟩

/-- The last part of an injection adds a dict without children to `KextList` and
the linked kext to both lists, or it fails and frees the kext. -/
theorem publishKext_cases {ctx after : PrelinkedContext} {ref : Option KextRef} {status : EfiStatus}
    (done : publishKext env ctx ref root = (status, after)) :
    (∃ stored, after = freeOption { ctx with pooledBuffers := stored } ref) ∨
    ∃ stored text, after = { ctx with
      pooledBuffers := stored
      kextList := ctx.kextList ++ [.mk (literal "dict") none (some text) none []]
      prelinkedKexts := ctx.prelinkedKexts ++ ref.toList
      injectedKexts := ctx.injectedKexts ++ ref.toList } ∧ text.storage = .pooled := by
  unfold publishKext at done
  split at done
  · cases done
    exact Or.inl ⟨ctx.pooledBuffers, rfl⟩
  · split at done
    · cases done
      exact Or.inl ⟨ctx.pooledBuffers, rfl⟩
    · simp only at done
      split at done
      · cases done
        exact Or.inl ⟨_, rfl⟩
      · right
        cases ref with
        | none =>
          cases done
          refine ⟨ctx.pooledBuffers ++ [⟨env.xmlDocumentExport root, .pooled⟩],
            ⟨env.xmlDocumentExport root, .pooled⟩, ?_, rfl⟩
          simp only [Option.toList_none, List.append_nil]
          rfl
        | some ref =>
          cases done
          exact ⟨ctx.pooledBuffers ++ [⟨env.xmlDocumentExport root, .pooled⟩],
            ⟨env.xmlDocumentExport root, .pooled⟩, rfl, rfl⟩

end Link

section Sample

def sampleInjector (plist : XmlNode) : Injector where
  toExternals := sampleExternals
  executableSupported := fun _ _ => true
  machoExpandImage := fun executable _ => ⟨machoPageSize, 0, [(0, executable)]⟩
  kextFindKmodAddress := fun _ _ loadAddress _ => some loadAddress
  xmlDocumentParse := fun _ => some plist
  xmlDocumentExport := fun _ => []
  internalPrelinkKext := fun _ _ _ _ => (.success, [])
  kextImage := fun _ window => ⟨window.fileOffset, 0, none⟩
  kcKextApplyFileDelta := fun _ _ _ => (true, [])
  memory := fun _ _ => true

def samplePlist (identifier : String) (libraries : List String) : XmlNode :=
  sampleNode "plist" none [sampleKextDict identifier libraries]

def sampleRequest (identifier : Option String) : InjectRequest where
  identifier := identifier.map fun text => ⟨ascii text, .caller⟩
  bundlePath := ⟨ascii "/a.kext", .caller⟩
  infoPlist := []
  executablePath := ⟨ascii "a", .caller⟩
  executable := some []

end Sample

end OpenCore.InjectFrame
