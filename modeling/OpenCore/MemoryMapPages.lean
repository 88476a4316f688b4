import Mathlib.Order.Basic
import OpenCore.MemoryAttributes

/-!
Memory maps page by page. A sorted map of disjoint descriptors gives every page at most
one type; a map partitions another one if it has the same pages, in descriptors that lie
within those of the other. Attributes retype the pages they cover.
-/

namespace OpenCore.MemoryMapPages

open Base MemoryAttributes List

section Pages

def ending (desc : MemoryDescriptor) : Nat := desc.physicalStart + desc.numberOfPages * efiPageSize

structure Valid (desc : MemoryDescriptor) : Prop where
  aligned : desc.physicalStart % efiPageSize = 0
  positive : 0 < desc.numberOfPages
  bounded : ending desc ≤ u64

structure SortedDisjoint (memoryMap : List MemoryDescriptor) : Prop where
  valid : ∀ desc ∈ memoryMap, Valid desc
  sorted : memoryMap.Pairwise fun earlier later => ending earlier ≤ later.physicalStart

def Covers (desc : MemoryDescriptor) (page : Nat) : Prop :=
  desc.physicalStart ≤ page * efiPageSize ∧ page * efiPageSize < ending desc

instance (desc : MemoryDescriptor) (page : Nat) : Decidable (Covers desc page) :=
  inferInstanceAs (Decidable (_ ∧ _))

def Contains (outer inner : MemoryDescriptor) : Prop :=
  outer.physicalStart ≤ inner.physicalStart ∧ ending inner ≤ ending outer

def kindAt (memoryMap : List MemoryDescriptor) (page : Nat) : Option (Nat × Nat) :=
  (memoryMap.find? (Covers · page)).map fun desc => (desc.type, desc.attributeFlags)

theorem kindAt_append (front rear : List MemoryDescriptor) (page : Nat) :
    kindAt (front ++ rear) page = (kindAt front page).or (kindAt rear page) := by
  rw [kindAt, find?_append, kindAt, kindAt]
  cases List.find? (Covers · page) front <;> rfl

theorem kindAt_singleton (desc : MemoryDescriptor) (page : Nat) :
    kindAt [desc] page =
      if Covers desc page then some (desc.type, desc.attributeFlags) else none := by
  rw [kindAt, find?_singleton]
  split <;> simp_all

end Pages

section Partitions
variable {old new front rear : List MemoryDescriptor} {desc attr : MemoryDescriptor}
  {attrs : List MemoryDescriptor} {page : Nat}
variable {oldRear newRear : List MemoryDescriptor} {early later : List MemoryDescriptor}
  {middle : List MemoryDescriptor}

theorem kindAt_eq_some {kind : Nat × Nat} (found : kindAt old page = some kind) :
    ∃ desc ∈ old, Covers desc page ∧ kind = (desc.type, desc.attributeFlags) := by
  obtain ⟨desc, first, rfl⟩ := Option.map_eq_some_iff.mp found
  have covers := find?_some first
  rw [decide_eq_true_eq] at covers
  exact ⟨desc, mem_of_find?_eq_some first, covers, rfl⟩

theorem SortedDisjoint.cons (sorted : SortedDisjoint (desc :: rear)) :
    Valid desc ∧ (∀ later ∈ rear, ending desc ≤ later.physicalStart) ∧ SortedDisjoint rear := by
  have pairs := pairwise_cons.mp sorted.sorted
  exact ⟨sorted.valid desc mem_cons_self, pairs.1,
    fun other member => sorted.valid other (mem_cons_of_mem _ member), pairs.2⟩

theorem Contains.covers (inside : Contains desc attr) (covers : Covers attr page) :
    Covers desc page :=
  ⟨inside.1.trans covers.1, lt_of_lt_of_le covers.2 inside.2⟩

structure Partitions (old new : List MemoryDescriptor) : Prop where
  sorted : SortedDisjoint new
  within : ∀ piece ∈ new, ∃ desc ∈ old, Contains desc piece
  same : ∀ page, (kindAt new page).isSome = (kindAt old page).isSome

theorem Partitions.refl (sorted : SortedDisjoint old) : Partitions old old where
  sorted := sorted
  within piece member := ⟨piece, member, le_refl _, le_refl _⟩
  same _ := rfl

theorem Partitions.trans (first : Partitions old middle)
    (second : Partitions middle new) : Partitions old new where
  sorted := second.sorted
  within piece member := by
    obtain ⟨part, partMember, inside⟩ := second.within piece member
    obtain ⟨desc, descMember, outer⟩ := first.within part partMember
    exact ⟨desc, descMember, outer.1.trans inside.1, inside.2.trans outer.2⟩
  same page := (second.same page).trans (first.same page)

theorem Partitions.append (sorted : SortedDisjoint (old ++ oldRear)) (first : Partitions old new)
    (second : Partitions oldRear newRear) : Partitions (old ++ oldRear) (new ++ newRear) where
  sorted := by
    constructor
    · intro desc member
      rcases mem_append.mp member with member | member
      · exact first.sorted.valid desc member
      · exact second.sorted.valid desc member
    · refine pairwise_append.mpr ⟨first.sorted.sorted, second.sorted.sorted, ?_⟩
      intro earlier earlierMember later laterMember
      obtain ⟨outer, outerMember, outside⟩ := first.within earlier earlierMember
      obtain ⟨other, otherMember, otherside⟩ := second.within later laterMember
      have apart := (pairwise_append.mp sorted.sorted).2.2 outer outerMember other otherMember
      exact outside.2.trans (apart.trans otherside.1)
  within piece member := by
    rcases mem_append.mp member with member | member
    · obtain ⟨desc, descMember, inside⟩ := first.within piece member
      exact ⟨desc, mem_append_left _ descMember, inside⟩
    · obtain ⟨desc, descMember, inside⟩ := second.within piece member
      exact ⟨desc, mem_append_right _ descMember, inside⟩
  same page := by
    rw [kindAt_append, kindAt_append, Option.isSome_or, Option.isSome_or, first.same, second.same]

structure Retyped (attrs old new : List MemoryDescriptor) : Prop where
  inside : ∀ page, ∀ attr ∈ attrs, Covers attr page → ∀ type flags,
    kindAt old page = some (type, flags) → kindAt new page = some (ocRealMemoryType attr, flags)
  outside : ∀ page, (∀ attr ∈ attrs, ¬ Covers attr page) → kindAt new page = kindAt old page

theorem Retyped.refl (same : ∀ attr ∈ attrs, ∀ desc ∈ old, ∀ page,
    Covers attr page → Covers desc page → ocRealMemoryType attr = desc.type) :
    Retyped attrs old old where
  inside page attr member covers type flags found := by
    obtain ⟨desc, descMember, descCovers, kind⟩ := kindAt_eq_some found
    cases kind
    rw [found, same attr member desc descMember page covers descCovers]
  outside _ _ := rfl

theorem Retyped.append (first : Retyped attrs old new) (second : Retyped attrs oldRear newRear)
    (same : ∀ page, (kindAt new page).isSome = (kindAt old page).isSome) :
    Retyped attrs (old ++ oldRear) (new ++ newRear) where
  inside page attr member covers type flags found := by
    rw [kindAt_append] at found ⊢
    cases here : kindAt old page with
    | some kind =>
      rw [here, Option.some_or] at found
      rw [first.inside page attr member covers type flags (here.trans found), Option.some_or]
    | none =>
      have absent : kindAt new page = none := by
        rw [← Option.not_isSome_iff_eq_none, same page, here]
        decide
      rw [here, Option.none_or] at found
      rw [absent, Option.none_or]
      exact second.inside page attr member covers type flags found
  outside page uncovered := by
    rw [kindAt_append, kindAt_append, first.outside page uncovered, second.outside page uncovered]

theorem Retyped.congr (retyped : Retyped attrs middle new)
    (same : ∀ page, kindAt middle page = kindAt old page) : Retyped attrs old new where
  inside page attr member covers type flags found :=
    retyped.inside page attr member covers type flags ((same page).trans found)
  outside page uncovered := (retyped.outside page uncovered).trans (same page)

def dropPages (desc : MemoryDescriptor) (count : Nat) : MemoryDescriptor :=
  { desc with
    physicalStart := desc.physicalStart + count * efiPageSize
    numberOfPages := desc.numberOfPages - count }

theorem cut_partitions {count : Nat} (valid : Valid desc) (positive : 0 < count)
    (shorter : count < desc.numberOfPages) :
    Partitions [desc] ([{ desc with numberOfPages := count }] ++ [dropPages desc count]) ∧
      ∀ page, kindAt ([{ desc with numberOfPages := count }] ++ [dropPages desc count]) page =
        kindAt [desc] page := by
  obtain ⟨aligned, -, bounded⟩ := valid
  have descEnds : ending desc = desc.physicalStart + desc.numberOfPages * 4096 := rfl
  have firstEnds : ending { desc with numberOfPages := count } = desc.physicalStart + count * 4096 := rfl
  have secondStarts : (dropPages desc count).physicalStart = desc.physicalStart + count * 4096 := rfl
  have secondEnds : ending (dropPages desc count) = ending desc := by
    rw [ending, dropPages, ending, efiPageSize_val]
    dsimp only
    omega
  have kinds : ∀ page, kindAt ([{ desc with numberOfPages := count }] ++ [dropPages desc count]) page =
      kindAt [desc] page := by
    intro page
    have whole : Covers desc page ↔ desc.physicalStart ≤ page * 4096 ∧ page * 4096 < ending desc :=
      Iff.rfl
    have first : Covers { desc with numberOfPages := count } page ↔
        desc.physicalStart ≤ page * 4096 ∧ page * 4096 < desc.physicalStart + count * 4096 := Iff.rfl
    have second : Covers (dropPages desc count) page ↔
        desc.physicalStart + count * 4096 ≤ page * 4096 ∧ page * 4096 < ending desc := by
      rw [Covers, secondStarts, secondEnds, efiPageSize_val]
    rw [kindAt_append, kindAt_singleton, kindAt_singleton, kindAt_singleton]
    by_cases covered : Covers desc page
    · rw [if_pos covered]
      by_cases early : Covers { desc with numberOfPages := count } page
      · rw [if_pos early, Option.some_or]
      · have late : Covers (dropPages desc count) page := by
          rw [second]
          rw [first] at early
          rw [whole] at covered
          omega
        rw [if_neg early, if_pos late, Option.none_or]
        rfl
    · have noFirst : ¬ Covers { desc with numberOfPages := count } page := by
        rw [first]
        rw [whole] at covered
        omega
      have noSecond : ¬ Covers (dropPages desc count) page := by
        rw [second]
        rw [whole] at covered
        omega
      rw [if_neg covered, if_neg noFirst, if_neg noSecond, Option.none_or]
  refine ⟨⟨⟨?_, ?_⟩, ?_, ?_⟩, kinds⟩
  · intro piece member
    rw [mem_append, mem_singleton, mem_singleton] at member
    rcases member with rfl | rfl
    · exact ⟨aligned, positive, by omega⟩
    · refine ⟨?_, ?_, by omega⟩
      · rw [secondStarts]
        rw [efiPageSize_val] at *
        omega
      · show 0 < desc.numberOfPages - count
        omega
  · refine pairwise_append.mpr ⟨pairwise_singleton _ _, pairwise_singleton _ _, ?_⟩
    intro earlier first later second
    rw [mem_singleton.mp first, mem_singleton.mp second, firstEnds, secondStarts]
  · intro piece member
    refine ⟨desc, mem_singleton.mpr rfl, ?_⟩
    rw [mem_append, mem_singleton, mem_singleton] at member
    rcases member with rfl | rfl
    · exact ⟨le_refl _, by omega⟩
    · exact ⟨by omega, by omega⟩
  · intro page
    rw [kinds page]

theorem Retyped.refl_of_apart (apart : ∀ attr ∈ attrs, ∀ desc ∈ old,
    ending desc ≤ attr.physicalStart ∨ ending attr ≤ desc.physicalStart) : Retyped attrs old old := by
  apply Retyped.refl
  intro attr attrMember desc descMember page attrCovers descCovers
  have below := attrCovers.2
  have above := descCovers.2
  rcases apart attr attrMember desc descMember with earlier | later
  · exact absurd (lt_of_lt_of_le above (earlier.trans attrCovers.1)) (lt_irrefl _)
  · exact absurd (lt_of_lt_of_le below (later.trans descCovers.1)) (lt_irrefl _)

theorem apart_of_sorted (sorted : SortedDisjoint (early ++ later))
    {page : Nat} (one : attr ∈ early) (other : desc ∈ later) (covers : Covers attr page) :
    ¬ Covers desc page := by
  intro both
  have apart := (pairwise_append.mp sorted.sorted).2.2 attr one desc other
  exact absurd (lt_of_lt_of_le covers.2 (apart.trans both.1)) (lt_irrefl _)

theorem SortedDisjoint.append
    (sorted : SortedDisjoint (early ++ later)) : SortedDisjoint early ∧ SortedDisjoint later := by
  have pairs := pairwise_append.mp sorted.sorted
  exact ⟨⟨fun one member => sorted.valid one (mem_append_left _ member), pairs.1⟩,
    ⟨fun one member => sorted.valid one (mem_append_right _ member), pairs.2.1⟩⟩

theorem Retyped.trans {early later old middle new : List MemoryDescriptor}
    (sorted : SortedDisjoint (early ++ later)) (first : Retyped early old middle)
    (second : Retyped later middle new) : Retyped (early ++ later) old new where
  inside page attr member covers type flags found := by
    rcases mem_append.mp member with member | member
    · rw [second.outside page fun other otherMember => apart_of_sorted sorted member otherMember covers]
      exact first.inside page attr member covers type flags found
    · apply second.inside page attr member covers type flags
      rw [first.outside page fun other otherMember both =>
        apart_of_sorted sorted otherMember member both covers]
      exact found
  outside page uncovered := by
    rw [second.outside page fun attr member => uncovered attr (mem_append_right _ member),
      first.outside page fun attr member => uncovered attr (mem_append_left _ member)]

end Partitions

end OpenCore.MemoryMapPages
