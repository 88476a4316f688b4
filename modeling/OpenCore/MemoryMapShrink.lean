import Mathlib.Data.List.Destutter
import OpenCore.InPlaceJoin
import OpenCore.MemoryMapPages

/-!
`OcShrinkMemoryMap` joins the descriptors of a memory map that follow each other with the same
attributes and types of the same use, and `OcDeduplicateDescriptors` keeps one of the descriptors
that repeat each other. Both count what they keep from the first descriptor on, and count once
more when the last descriptors were joined.
-/

namespace OpenCore.MemoryMapShrink

open Base MemoryAttributes MemoryMapPages InPlaceJoin List

section Source

def efiLoaderCode : Nat := 1
def efiLoaderData : Nat := 2
def efiBootServicesCode : Nat := 3
def efiBootServicesData : Nat := 4
def efiConventionalMemory : Nat := 7

def isFree (type : Nat) : Bool :=
  type == efiBootServicesCode || type == efiBootServicesData || type == efiConventionalMemory ||
    type == efiLoaderCode || type == efiLoaderData

def adjoins (prev desc : MemoryDescriptor) : Bool :=
  desc.attributeFlags == prev.attributeFlags &&
    (prev.physicalStart + efiPagesToSize prev.numberOfPages) % u64 == desc.physicalStart

def canBeJoinedFree (prev desc : MemoryDescriptor) : Bool :=
  adjoins prev desc && (isFree desc.type && isFree prev.type)

def canBeJoinedRt (prev desc : MemoryDescriptor) : Bool :=
  adjoins prev desc &&
    (desc.type == efiRuntimeServicesCode && prev.type == efiRuntimeServicesCode ||
      desc.type == efiRuntimeServicesData && prev.type == efiRuntimeServicesData)

def joinDescriptors (prev desc : MemoryDescriptor) : Option MemoryDescriptor :=
  let numberOfPages := (prev.numberOfPages + desc.numberOfPages) % u64
  if canBeJoinedFree prev desc then
    some { prev with type := efiConventionalMemory, numberOfPages := numberOfPages }
  else if canBeJoinedRt prev desc then some { prev with numberOfPages := numberOfPages }
  else none

structure Outcome where
  status : EfiStatus
  size : Nat
  memoryMap : List MemoryDescriptor
  deriving DecidableEq

def ocShrinkMemoryMap (descriptorSize : Nat) (memoryMap : List MemoryDescriptor) : Option Outcome :=
  if memoryMap.length * descriptorSize ≤ descriptorSize then
    some ⟨.notFound, memoryMap.length * descriptorSize, memoryMap⟩
  else
    (turns joinDescriptors descriptorSize (memoryMap.length - 1)
      (Cursors.first descriptorSize memoryMap)).map fun cursors =>
        -- Handle last entries if they were merged.
        ⟨.success, cursors.size + if cursors.hasEntriesToRemove then descriptorSize else 0,
          cursors.entries⟩

def isDuplicate (prev desc : MemoryDescriptor) : Bool :=
  desc.physicalStart == prev.physicalStart && desc.numberOfPages == prev.numberOfPages

def dropDuplicate (prev desc : MemoryDescriptor) : Option MemoryDescriptor :=
  if isDuplicate prev desc then some prev else none

def ocDeduplicateDescriptors (memoryMap : List MemoryDescriptor) : Option Outcome :=
  if memoryMap.length ≤ 1 then some ⟨.notFound, memoryMap.length, memoryMap⟩
  else
    (turns dropDuplicate 1 (memoryMap.length - 1) (Cursors.first 1 memoryMap)).map fun cursors =>
      ⟨if cursors.joined then .success else .notFound,
        cursors.size + if cursors.hasEntriesToRemove then 1 else 0, cursors.entries⟩

end Source

section Joining

variable {prev desc joined : MemoryDescriptor}

def sameUse (left right : Nat) : Bool :=
  isFree left && isFree right || left == right && isRuntime left

theorem joinDescriptors_isSome (prev desc : MemoryDescriptor) :
    (joinDescriptors prev desc).isSome = (adjoins prev desc && sameUse prev.type desc.type) := by
  unfold joinDescriptors canBeJoinedFree canBeJoinedRt sameUse isRuntime
  cases adjoins prev desc with
  | false => rfl
  | true =>
    simp only [Bool.true_and]
    grind

theorem isRuntime_of_isFree {type : Nat} (free : isFree type = true) : isRuntime type = false := by
  unfold isRuntime efiRuntimeServicesCode efiRuntimeServicesData
  simp only [isFree, efiBootServicesCode, efiBootServicesData, efiConventionalMemory, efiLoaderCode,
    efiLoaderData, Bool.or_eq_true, beq_iff_eq] at free
  simp only [Bool.or_eq_false_iff, beq_eq_false_iff_ne]
  omega

theorem sameUse_comm (left right : Nat) : sameUse left right = sameUse right left := by
  unfold sameUse
  grind

def joinedType (type : Nat) : Nat := if isFree type then efiConventionalMemory else type

theorem sameUse_joinedType (type other : Nat) : sameUse (joinedType type) other = sameUse type other := by
  unfold joinedType
  cases free : isFree type with
  | true =>
    have conventional : isFree efiConventionalMemory = true := rfl
    simp [sameUse, free, conventional, isRuntime_of_isFree free, isRuntime_of_isFree conventional]
  | false => rfl

theorem sameUse_congr {left right : Nat} (same : sameUse left right = true) (other : Nat) :
    sameUse left other = sameUse right other := by
  have leftUse := @isRuntime_of_isFree left
  have rightUse := @isRuntime_of_isFree right
  unfold sameUse at *
  grind

structure JoinsTo (prev desc joined : MemoryDescriptor) : Prop where
  start : joined.physicalStart = prev.physicalStart
  attributes : joined.attributeFlags = prev.attributeFlags ∧ joined.attributeFlags = desc.attributeFlags
  pages : joined.numberOfPages = (prev.numberOfPages + desc.numberOfPages) % u64
  type : joined.type = joinedType prev.type
  use : sameUse prev.type desc.type = true
  behind : (prev.physicalStart + efiPagesToSize prev.numberOfPages) % u64 = desc.physicalStart

theorem joinDescriptors_joinsTo (result : joinDescriptors prev desc = some joined) :
    JoinsTo prev desc joined := by
  have some : (joinDescriptors prev desc).isSome = true := by rw [result]; rfl
  rw [joinDescriptors_isSome, Bool.and_eq_true] at some
  obtain ⟨next, use⟩ := some
  have adjoin := next
  rw [adjoins, Bool.and_eq_true, beq_iff_eq, beq_iff_eq] at next
  obtain ⟨attributes, behind⟩ := next
  unfold joinDescriptors at result
  dsimp only at result
  split at result
  · next free =>
      rw [canBeJoinedFree, Bool.and_eq_true, Bool.and_eq_true] at free
      cases result
      exact ⟨rfl, ⟨rfl, attributes.symm⟩, rfl, (if_pos free.2.2).symm, use, behind⟩
  · next free =>
      split at result
      · next runtime =>
          -- Free memory is joined in the first branch, so what comes here keeps its type.
          have unfree : ¬isFree prev.type = true := by
            intro both
            have used := use
            rw [sameUse, isRuntime_of_isFree both, Bool.and_false, Bool.or_false] at used
            rw [Bool.and_eq_true] at used
            exact free (by simp [canBeJoinedFree, adjoin, used])
          cases result
          exact ⟨rfl, ⟨rfl, attributes.symm⟩, rfl, (if_neg unfree).symm, use, behind⟩
      · cases result

theorem efiPagesToSize_add (left right : Nat) :
    efiPagesToSize ((left + right) % u64) = (efiPagesToSize left + efiPagesToSize right) % u64 := by
  simp only [efiPagesToSize, Nat.mod_mul_mod, Nat.add_mul, ← Nat.add_mod]

/-- The address behind a joined descriptor, which may wrap, is that behind its last part. -/
theorem JoinsTo.ends (joins : JoinsTo prev desc joined) :
    (joined.physicalStart + efiPagesToSize joined.numberOfPages) % u64 =
      (desc.physicalStart + efiPagesToSize desc.numberOfPages) % u64 := by
  rw [joins.start, joins.pages, efiPagesToSize_add, Nat.add_mod_mod, ← Nat.add_assoc, ← joins.behind,
    Nat.mod_add_mod]

theorem joinDescriptors_carries : Carries joinDescriptors := by
  intro prev desc joined result later
  have joins := joinDescriptors_joinsTo result
  rw [joinDescriptors_isSome, joinDescriptors_isSome, joins.type, sameUse_joinedType,
    sameUse_congr joins.use]
  unfold adjoins
  rw [joins.ends, joins.attributes.2]

theorem joinDescriptors_keeps : Keeps joinDescriptors := by
  intro prev desc joined result earlier apart
  have joins := joinDescriptors_joinsTo result
  rw [← Option.isNone_iff_eq_none, ← Option.not_isSome, joinDescriptors_isSome] at apart ⊢
  have same : sameUse earlier.type joined.type = sameUse earlier.type prev.type := by
    rw [joins.type, sameUse_comm, sameUse_joinedType, sameUse_comm]
  have adjoin : adjoins earlier joined = adjoins earlier prev := by
    rw [adjoins, adjoins, joins.start, joins.attributes.1]
  rw [same, adjoin]
  exact apart

end Joining

section Coverage

structure Ordered (memoryMap : List MemoryDescriptor) : Prop where
  bounded : ∀ desc ∈ memoryMap, ending desc ≤ u64
  sorted : memoryMap.Pairwise fun earlier later => ending earlier ≤ later.physicalStart

def Compatible (old new : Nat) : Prop := new = old ∨ isFree old = true ∧ new = efiConventionalMemory

theorem Compatible.trans {old middle new : Nat} (first : Compatible old middle)
    (second : Compatible middle new) : Compatible old new := by
  rcases first with rfl | ⟨free, rfl⟩
  · exact second
  · rcases second with rfl | ⟨_, rfl⟩
    · exact .inr ⟨free, rfl⟩
    · exact .inr ⟨free, rfl⟩

theorem compatible_joinedType {type other : Nat} (same : sameUse type other = true) :
    Compatible type (joinedType type) ∧ Compatible other (joinedType type) := by
  unfold joinedType
  by_cases free : isFree type = true
  · have otherFree : isFree other = true := by
      simpa [sameUse, free, isRuntime_of_isFree free] using same
    rw [if_pos free]
    exact ⟨.inr ⟨free, rfl⟩, .inr ⟨otherFree, rfl⟩⟩
  · rw [if_neg free]
    have equal : type = other := by
      simp [sameUse, free] at same
      exact same.1
    exact ⟨.inl rfl, .inl equal⟩

variable {prev desc joined : MemoryDescriptor} {rest : List MemoryDescriptor}

theorem JoinsTo.meets (joins : JoinsTo prev desc joined)
    (ordered : Ordered (prev :: desc :: rest)) :
    ending prev = desc.physicalStart ∧ ending joined = ending desc := by
  have before := (pairwise_cons.mp ordered.sorted).1 desc mem_cons_self
  have top := ordered.bounded desc (mem_cons_of_mem _ mem_cons_self)
  have behind := joins.behind
  have start := joins.start
  have pages := joins.pages
  have below : desc.physicalStart < u64 := behind ▸ Nat.mod_lt _ (by decide)
  unfold ending at *
  unfold efiPagesToSize at behind
  generalize prev.physicalStart = first at *
  rw [efiPageSize_val] at *
  have whole : (prev.numberOfPages + desc.numberOfPages) % u64 =
      prev.numberOfPages + desc.numberOfPages := by
    rw [Nat.mod_eq_of_lt]
    rw [u64_val] at *
    omega
  rw [Nat.add_mod_mod, Nat.mod_eq_of_lt (by omega)] at behind
  rw [start, pages, whole]
  omega

theorem JoinsTo.ordered (joins : JoinsTo prev desc joined) (ordered : Ordered (prev :: desc :: rest)) :
    Ordered (joined :: rest) := by
  obtain ⟨_, ends⟩ := joins.meets ordered
  have pairs := pairwise_cons.mp (pairwise_cons.mp ordered.sorted).2
  constructor
  · intro other member
    rcases mem_cons.mp member with rfl | later
    · rw [ends]
      exact ordered.bounded desc (mem_cons_of_mem _ mem_cons_self)
    · exact ordered.bounded other (mem_cons_of_mem _ (mem_cons_of_mem _ later))
  · refine pairwise_cons.mpr ⟨fun later member => ?_, pairs.2⟩
    rw [ends]
    exact pairs.1 later member

theorem JoinsTo.covers_iff (joins : JoinsTo prev desc joined)
    (ordered : Ordered (prev :: desc :: rest)) (page : Nat) :
    Covers joined page ↔ Covers prev page ∨ Covers desc page := by
  obtain ⟨meets, ends⟩ := joins.meets ordered
  have low : prev.physicalStart ≤ ending prev := Nat.le_add_right _ _
  have high : desc.physicalStart ≤ ending desc := Nat.le_add_right _ _
  unfold Covers
  rw [joins.start, ends]
  omega

/-- The pages of one map are those of another one, with compatible types and the same attributes. -/
structure SamePages (before after : List MemoryDescriptor) : Prop where
  kept : ∀ desc ∈ before, ∀ page, Covers desc page → ∃ new ∈ after,
    Covers new page ∧ Compatible desc.type new.type ∧ new.attributeFlags = desc.attributeFlags
  only : ∀ new ∈ after, ∀ page, Covers new page → ∃ desc ∈ before, Covers desc page

theorem SamePages.refl (memoryMap : List MemoryDescriptor) : SamePages memoryMap memoryMap where
  kept desc member _ covers := ⟨desc, member, covers, .inl rfl, rfl⟩
  only new member _ covers := ⟨new, member, covers⟩

theorem SamePages.trans {before middle after : List MemoryDescriptor}
    (first : SamePages before middle) (second : SamePages middle after) : SamePages before after where
  kept desc member page covers := by
    obtain ⟨part, partMember, partCovers, partType, partFlags⟩ := first.kept desc member page covers
    obtain ⟨new, newMember, newCovers, newType, newFlags⟩ := second.kept part partMember page partCovers
    exact ⟨new, newMember, newCovers, partType.trans newType, newFlags.trans partFlags⟩
  only new member page covers := by
    obtain ⟨part, partMember, partCovers⟩ := second.only new member page covers
    exact first.only part partMember page partCovers

theorem SamePages.cons {before after : List MemoryDescriptor} (same : SamePages before after)
    (first : MemoryDescriptor) : SamePages (first :: before) (first :: after) where
  kept desc member page covers := by
    rcases mem_cons.mp member with rfl | later
    · exact ⟨desc, mem_cons_self, covers, .inl rfl, rfl⟩
    · obtain ⟨new, newMember, found⟩ := same.kept desc later page covers
      exact ⟨new, mem_cons_of_mem _ newMember, found⟩
  only new member page covers := by
    rcases mem_cons.mp member with rfl | later
    · exact ⟨new, mem_cons_self, covers⟩
    · obtain ⟨desc, descMember, found⟩ := same.only new later page covers
      exact ⟨desc, mem_cons_of_mem _ descMember, found⟩

theorem JoinsTo.samePages (joins : JoinsTo prev desc joined)
    (ordered : Ordered (prev :: desc :: rest)) :
    SamePages (prev :: desc :: rest) (joined :: rest) where
  kept old member page covers := by
    obtain ⟨prevType, descType⟩ := compatible_joinedType joins.use
    rw [← joins.type] at prevType descType
    have inJoined := joins.covers_iff ordered page
    rcases mem_cons.mp member with rfl | behind
    · exact ⟨joined, mem_cons_self, inJoined.mpr (.inl covers), prevType, joins.attributes.1⟩
    · rcases mem_cons.mp behind with rfl | later
      · exact ⟨joined, mem_cons_self, inJoined.mpr (.inr covers), descType, joins.attributes.2⟩
      · exact ⟨old, mem_cons_of_mem _ later, covers, .inl rfl, rfl⟩
  only new member page covers := by
    rcases mem_cons.mp member with rfl | later
    · rcases (joins.covers_iff ordered page).mp covers with inPrev | inDesc
      · exact ⟨prev, mem_cons_self, inPrev⟩
      · exact ⟨desc, mem_cons_of_mem _ mem_cons_self, inDesc⟩
    · exact ⟨new, mem_cons_of_mem _ (mem_cons_of_mem _ later), covers⟩

theorem joinRuns_pages (first : MemoryDescriptor) (rest : List MemoryDescriptor)
    (ordered : Ordered (first :: rest)) :
    Ordered (joinRuns joinDescriptors first rest) ∧
      (∀ run ∈ joinRuns joinDescriptors first rest, first.physicalStart ≤ run.physicalStart) ∧
      SamePages (first :: rest) (joinRuns joinDescriptors first rest) := by
  induction rest generalizing first with
  | nil =>
    refine ⟨ordered, fun run member => ?_, SamePages.refl _⟩
    rw [mem_singleton.mp member]
  | cons next rest ih =>
    unfold joinRuns
    cases result : joinDescriptors first next with
    | some both =>
      -- The joined descriptor starts where the first one does, so the bound carries over.
      have joins := joinDescriptors_joinsTo result
      obtain ⟨runsOrdered, above, pages⟩ := ih both (joins.ordered ordered)
      rw [joins.start] at above
      exact ⟨runsOrdered, above, (joins.samePages ordered).trans pages⟩
    | none =>
      have pairs := pairwise_cons.mp ordered.sorted
      have tail : Ordered (next :: rest) :=
        ⟨fun desc member => ordered.bounded desc (mem_cons_of_mem _ member), pairs.2⟩
      obtain ⟨runsOrdered, above, pages⟩ := ih next tail
      -- The runs behind start no lower than the next descriptor.
      have before := pairs.1 next mem_cons_self
      have start : first.physicalStart ≤ ending first := Nat.le_add_right _ _
      refine ⟨⟨?_, ?_⟩, ?_, pages.cons first⟩
      · intro run member
        rcases mem_cons.mp member with rfl | later
        · exact ordered.bounded run mem_cons_self
        · exact runsOrdered.bounded run later
      · refine pairwise_cons.mpr ⟨fun run member => ?_, runsOrdered.sorted⟩
        exact le_trans before (above run member)
      · intro run member
        rcases mem_cons.mp member with rfl | later
        · exact le_refl _
        · have := above run later
          omega

theorem Ordered.once {memoryMap : List MemoryDescriptor} (ordered : Ordered memoryMap)
    {page : Nat} {new : MemoryDescriptor} (member : new ∈ memoryMap) (covers : Covers new page) :
    memoryMap.filter (Covers · page) = [new] := by
  obtain ⟨front, rear, rfl⟩ := append_of_mem member
  have pairs := pairwise_append.mp ordered.sorted
  have later := (pairwise_cons.mp pairs.2.1).1
  have noneBefore : front.filter (Covers · page) = [] := by
    rw [filter_eq_nil_iff]
    intro other inFront both
    have apart := pairs.2.2 other inFront new mem_cons_self
    exact absurd (of_decide_eq_true both).2 (by have := covers.1; omega)
  have noneBehind : rear.filter (Covers · page) = [] := by
    rw [filter_eq_nil_iff]
    intro other inRear both
    have apart := later other inRear
    exact absurd (of_decide_eq_true both).1 (by have := covers.2; omega)
  rw [filter_append, filter_cons_of_pos (by simpa using covers), noneBefore, noneBehind, nil_append]

end Coverage

section Outcomes

variable {join : MemoryDescriptor → MemoryDescriptor → Option MemoryDescriptor}
  {memoryMap : List MemoryDescriptor} {descriptorSize : Nat}

def Outcome.returned (outcome : Outcome) (descriptorSize : Nat) : List MemoryDescriptor :=
  outcome.memoryMap.take (outcome.size / descriptorSize)

def joinable : List MemoryDescriptor → Nat
  | [] => 0
  | first :: rest => joins joinDescriptors first rest

structure Shrunk (descriptorSize : Nat) (before : List MemoryDescriptor) (outcome : Outcome) : Prop where
  size : outcome.size = (before.length - joinable before) * descriptorSize
  ordered : Ordered (outcome.returned descriptorSize)
  once : ∀ desc ∈ before, ∀ page, Covers desc page → ∃ new,
    (outcome.returned descriptorSize).filter (Covers · page) = [new] ∧
      Compatible desc.type new.type ∧ new.attributeFlags = desc.attributeFlags
  only : ∀ new ∈ outcome.returned descriptorSize, ∀ page, Covers new page →
    ∃ desc ∈ before, Covers desc page
  apart : (outcome.returned descriptorSize).IsChain fun prev desc => joinDescriptors prev desc = none

def EndsJoined (join : MemoryDescriptor → MemoryDescriptor → Option MemoryDescriptor)
    (memoryMap : List MemoryDescriptor) : Prop :=
  ∃ front prev last, memoryMap = front ++ [prev, last] ∧ (join prev last).isSome = true

theorem shrunk_of_returned {before runs : List MemoryDescriptor}
    {outcome : Outcome} (returned : outcome.returned descriptorSize = runs)
    (size : outcome.size = (before.length - joinable before) * descriptorSize)
    (ordered : Ordered runs) (pages : SamePages before runs)
    (apart : runs.IsChain fun prev desc => joinDescriptors prev desc = none) :
    Shrunk descriptorSize before outcome := by
  constructor
  · exact size
  · rw [returned]
    exact ordered
  · intro desc member page covers
    obtain ⟨new, newMember, newCovers, compatible⟩ := pages.kept desc member page covers
    rw [returned]
    exact ⟨new, ordered.once newMember newCovers, compatible⟩
  · rw [returned]
    exact pages.only
  · rw [returned]
    exact apart

theorem endsJoined_iff (first : MemoryDescriptor) (rest : List MemoryDescriptor) :
    EndsJoined join (first :: rest) ↔ lastJoins join false first rest = true :=
  (lastJoins_iff first rest).symm

theorem not_endsJoined_of_short (short : memoryMap.length ≤ 1) : ¬EndsJoined join memoryMap := by
  rintro ⟨front, prev, last, rfl, -⟩
  simp at short

theorem shrunk_of_short (positive : 0 < descriptorSize) {status : EfiStatus}
    (ordered : Ordered memoryMap) (short : memoryMap.length ≤ 1) :
    Shrunk descriptorSize memoryMap ⟨status, memoryMap.length * descriptorSize, memoryMap⟩ := by
  have returned : (Outcome.mk status (memoryMap.length * descriptorSize) memoryMap).returned
      descriptorSize = memoryMap := by
    rw [Outcome.returned, Nat.mul_div_cancel _ positive, take_length]
  cases memoryMap with
  | nil => exact shrunk_of_returned returned rfl ordered (SamePages.refl _) isChain_nil
  | cons first rest =>
    cases rest with
    | nil => exact shrunk_of_returned returned rfl ordered (SamePages.refl _) (isChain_singleton _)
    | cons next rest => simp at short

/-- A map is shrunk as it should be exactly when its last two descriptors are not joined. -/
theorem ocShrinkMemoryMap_shrunk (descriptorSize : Nat) (positive : 0 < descriptorSize)
    (memoryMap : List MemoryDescriptor) (ordered : Ordered memoryMap) :
    ∃ outcome, ocShrinkMemoryMap descriptorSize memoryMap = some outcome ∧
      (Shrunk descriptorSize memoryMap outcome ↔ ¬EndsJoined joinDescriptors memoryMap) := by
  unfold ocShrinkMemoryMap
  by_cases short : memoryMap.length * descriptorSize ≤ descriptorSize
  · have few : memoryMap.length ≤ 1 := Nat.le_of_mul_le_mul_right (by rwa [Nat.one_mul]) positive
    rw [if_pos short]
    exact ⟨_, rfl, fun _ => not_endsJoined_of_short few, fun _ => shrunk_of_short positive ordered few⟩
  · rw [if_neg short]
    cases memoryMap with
    | nil => simp at short
    | cons first rest =>
      obtain ⟨after, ran, result⟩ := turns_first descriptorSize joinDescriptors_carries
        first rest
      have counted := joinRuns_length joinDescriptors_carries (fun _ => rfl : Alike _ first first) rest
      have waits : after.hasEntriesToRemove = lastJoins joinDescriptors false first rest :=
        result.waits first fun _ => rfl
      obtain ⟨left, entries, -⟩ := result.runs
      rw [length_cons, Nat.add_sub_cancel, ran, Option.map_some]
      refine ⟨_, rfl, ?_⟩
      rw [endsJoined_iff, ← waits]
      have remaining : (first :: rest).length - joinable (first :: rest) =
          (joinRuns joinDescriptors first rest).length := by
        rw [length_cons, joinable]
        omega
      cases flag : after.hasEntriesToRemove with
      | true =>
        -- The size counts one more than what remains.
        refine ⟨fun shrunk => ?_, fun still => absurd rfl still⟩
        have size := shrunk.size
        simp only [remaining, result.size_eq, if_true] at size
        rw [Nat.mul_comm] at size
        omega
      | false =>
        refine ⟨fun _ => Bool.false_ne_true, fun _ => ?_⟩
        obtain ⟨runsOrdered, -, pages⟩ := joinRuns_pages first rest ordered
        apply shrunk_of_returned _ _ runsOrdered pages (joinRuns_apart joinDescriptors_keeps _ _)
        · simp only [Outcome.returned, entries, result.size_eq, Bool.false_eq_true, if_false,
            Nat.add_zero, Nat.mul_div_cancel_left _ positive, nil_append, take_left]
        · simp only [remaining, result.size_eq, Bool.false_eq_true, if_false, Nat.add_zero,
            Nat.mul_comm]

def twoPieces : List MemoryDescriptor := [⟨2, 0x1000, 1, 15⟩, ⟨2, 0x2000, 1, 15⟩]

theorem ocShrinkMemoryMap_twoPieces : Ordered twoPieces ∧
    ∃ outcome, ocShrinkMemoryMap 48 twoPieces = some outcome ∧ ¬Shrunk 48 twoPieces outcome := by
  refine ⟨⟨by decide, by decide⟩, _, rfl, fun shrunk => ?_⟩
  exact absurd shrunk.size (by decide)

def apartPieces : List MemoryDescriptor := [⟨2, 0x1000, 1, 15⟩, ⟨2, 0x3000, 1, 15⟩]

theorem ocShrinkMemoryMap_shrunk_apartPieces :
    ∃ outcome, ocShrinkMemoryMap 48 apartPieces = some outcome ∧
      (Shrunk 48 apartPieces outcome ↔ ¬EndsJoined joinDescriptors apartPieces) :=
  ocShrinkMemoryMap_shrunk 48 (by decide) apartPieces ⟨by decide, by decide⟩

end Outcomes

section Duplicates

theorem dropDuplicate_carries : Carries dropDuplicate := by
  intro prev desc joined result later
  unfold dropDuplicate isDuplicate at *
  split at result
  · next same =>
      cases result
      rw [Bool.and_eq_true, beq_iff_eq, beq_iff_eq] at same
      rw [same.1, same.2]
      split <;> rfl
  · cases result

def copies (memoryMap : List MemoryDescriptor) : List MemoryDescriptor :=
  memoryMap.destutter fun prev desc => ¬isDuplicate prev desc = true

theorem joinRuns_eq_copies (first : MemoryDescriptor) (rest : List MemoryDescriptor) :
    joinRuns dropDuplicate first rest = copies (first :: rest) := by
  unfold copies
  rw [destutter_cons']
  induction rest generalizing first with
  | nil => rfl
  | cons next rest ih =>
    unfold joinRuns dropDuplicate
    by_cases same : isDuplicate first next = true
    · rw [if_pos same, destutter'_cons_neg _ (not_not_intro same)]
      exact ih first
    · rw [if_neg same, destutter'_cons_pos _ same]
      exact congrArg _ (ih next)

structure Deduplicated (before : List MemoryDescriptor) (outcome : Outcome) : Prop where
  kept : outcome.memoryMap.take (copies before).length = copies before
  success : outcome.status = .success ↔ (copies before).length < before.length
  count : ¬EndsJoined dropDuplicate before → outcome.size = (copies before).length

/-- One descriptor of each run of duplicates is kept, and counted when the last is none. -/
theorem ocDeduplicateDescriptors_deduplicated (memoryMap : List MemoryDescriptor) :
    ∃ outcome, ocDeduplicateDescriptors memoryMap = some outcome ∧ Deduplicated memoryMap outcome := by
  unfold ocDeduplicateDescriptors
  by_cases short : memoryMap.length ≤ 1
  · have same : copies memoryMap = memoryMap := by
      cases memoryMap with
      | nil => rfl
      | cons first rest =>
        cases rest with
        | nil => rfl
        | cons next rest => simp at short
    rw [if_pos short]
    refine ⟨_, rfl, ?_, ?_, ?_⟩
    · rw [same, take_length]
    · rw [same]
      simp
    · rw [same]
      exact fun _ => rfl
  · rw [if_neg short]
    cases memoryMap with
    | nil => simp at short
    | cons first rest =>
      obtain ⟨after, ran, result⟩ := turns_first 1 dropDuplicate_carries first rest
      have waits : after.hasEntriesToRemove = lastJoins dropDuplicate false first rest :=
        result.waits first fun _ => rfl
      have joined := result.joined
      have size := result.size_eq
      obtain ⟨left, entries, -⟩ := result.runs
      rw [joinRuns_eq_copies] at joined entries size
      rw [length_cons, Nat.add_sub_cancel, ran, Option.map_some]
      refine ⟨_, rfl, ?_, ?_, ?_⟩
      · dsimp only
        rw [entries]
        exact take_left
      · simp only [joined, Cursors.first, Bool.false_or, decide_eq_true_eq, length_cons]
        by_cases fewer : (copies (first :: rest)).length ≤ rest.length
        · simp [fewer, Nat.lt_succ_of_le fewer]
        · rw [if_neg fewer]
          simp
          omega
      · intro alone
        rw [endsJoined_iff, ← waits, Bool.not_eq_true] at alone
        simp only [alone, size, Bool.false_eq_true, if_false, Nat.one_mul, Nat.add_zero]

def sameStart : List MemoryDescriptor := [⟨5, 0x1000, 1, 0⟩, ⟨5, 0x1000, 2, 0⟩]

/-- Descriptors that start together but differ in length are both kept. -/
theorem ocDeduplicateDescriptors_sameStart :
    ocDeduplicateDescriptors sameStart = some ⟨.notFound, 2, sameStart⟩ ∧
      (sameStart.destutter fun prev desc => prev.physicalStart ≠ desc.physicalStart).length = 1 := by
  decide

end Duplicates

end OpenCore.MemoryMapShrink
