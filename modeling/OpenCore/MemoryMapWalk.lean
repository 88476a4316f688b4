import OpenCore.MemoryMapSplit

/-!
The walk over a memory map that is split by attributes. An attribute is placed within a
runtime descriptor the walk has yet to see, or behind the walk already; the search for
the next attribute of a descriptor and the splits keep it so.
-/

namespace OpenCore.MemoryMapWalk

open Base MemoryAttributes MemoryMapPages MemoryMapSplit List

section Search
variable {entry attr : MemoryDescriptor} {attrs : List MemoryDescriptor}

def Placed (entry attr : MemoryDescriptor) : Prop :=
  Contains entry attr ∨ ending attr ≤ entry.physicalStart ∨ ending entry ≤ attr.physicalStart

def SameType (entry : MemoryDescriptor) (attrs : List MemoryDescriptor) : Prop :=
  ∀ attr ∈ attrs, Contains entry attr → ocRealMemoryType attr = entry.type

def Finds (entry : MemoryDescriptor) (index : Nat) (attrs : List MemoryDescriptor) :
    Option (Nat × MemoryDescriptor) → Prop
  | none => SameType entry attrs
  | some (found, attr) => ∃ skipped later, attrs = skipped ++ attr :: later ∧
      found = index + skipped.length ∧ Contains entry attr ∧ SameType entry skipped

theorem Finds.cons {index : Nat} {found : Option (Nat × MemoryDescriptor)}
    (finds : Finds entry (index + 1) attrs found)
    (same : Contains entry attr → ocRealMemoryType attr = entry.type) :
    Finds entry index (attr :: attrs) found := by
  have extended : ∀ {list}, SameType entry list → SameType entry (attr :: list) := by
    intro list sameType other member inside
    rcases mem_cons.mp member with rfl | member
    · exact same inside
    · exact sameType other member inside
  cases found with
  | none => exact extended finds
  | some found =>
    obtain ⟨skipped, later, rfl, index_eq, inside, sameType⟩ := finds
    refine ⟨attr :: skipped, later, rfl, ?_, inside, extended sameType⟩
    rw [index_eq, length_cons]
    omega

theorem findAttribute_finds {inDescAttrs : Bool} {index : Nat} (valid : Valid entry)
    (sorted : SortedDisjoint attrs) (runtime : ∀ attr ∈ attrs, isRuntime attr.type = true)
    (placed : ∀ attr ∈ attrs, Placed entry attr)
    (follows : inDescAttrs = true → ∀ attr ∈ attrs, entry.physicalStart ≤ attr.physicalStart) :
    Finds entry index attrs (findAttribute entry inDescAttrs index attrs) := by
  induction attrs generalizing inDescAttrs index with
  | nil =>
    intro attr member
    cases member
  | cons attr rest ih =>
    obtain ⟨validAttr, apart, sortedRest⟩ := sorted.cons
    have restRuntime : ∀ attr ∈ rest, isRuntime attr.type = true :=
      fun other member => runtime other (mem_cons_of_mem _ member)
    have restPlaced : ∀ attr ∈ rest, Placed entry attr :=
      fun other member => placed other (mem_cons_of_mem _ member)
    have positive := validAttr.positive
    have attrEnds : ending attr = attr.physicalStart + attr.numberOfPages * 4096 := rfl
    rw [findAttribute, if_pos (runtime attr mem_cons_self)]
    split
    · rename_i area
      have inside := (areaWithinDescriptor_iff valid validAttr).mp area
      split
      · exact ⟨[], rest, rfl, rfl, inside, fun _ member => by cases member⟩
      · rename_i sameType
        refine (ih sortedRest restRuntime restPlaced ?_).cons fun _ => not_not.mp sameType
        intro _ other member
        have starts := inside.1
        have behind := apart other member
        omega
    · rename_i area
      have outside : ¬ Contains entry attr := mt (areaWithinDescriptor_iff valid validAttr).mpr area
      split
      · -- The attributes of the entry are over, as they are sorted.
        rename_i followed
        intro other member inside
        have starts := follows followed attr mem_cons_self
        have behind : ending entry ≤ attr.physicalStart := by
          rcases placed attr mem_cons_self with inside | before | behind
          · exact absurd inside outside
          · omega
          · exact behind
        rcases mem_cons.mp member with rfl | member
        · exact absurd inside outside
        · have later := apart other member
          have otherPositive := (sortedRest.valid other member).positive
          have otherEnds : ending other = other.physicalStart + other.numberOfPages * 4096 := rfl
          have ends := inside.2
          omega
      · refine (ih sortedRest restRuntime restPlaced ?_).cons fun inside => absurd inside outside
        intro clash
        cases clash

end Search

section Walk
variable {front rear attrs : List MemoryDescriptor} {desc attr : MemoryDescriptor}
variable {skipped later : List MemoryDescriptor} {current : MemoryDescriptor} {total : Nat}

/-- Every attribute is in a runtime descriptor that is still to come, or before all of them. -/
def Pending (rear attrs : List MemoryDescriptor) : Prop :=
  ∀ attr ∈ attrs, (∃ desc ∈ rear, isRuntime desc.type ∧ Contains desc attr) ∨
    ∀ desc ∈ rear, ending attr ≤ desc.physicalStart

section

variable (pending : Pending (desc :: rear) attrs) (sorted : SortedDisjoint (desc :: rear))
include pending sorted

theorem Pending.placed : ∀ attr ∈ attrs, Placed desc attr := by
  intro attr member
  rcases pending attr member with ⟨outer, outerMember, _, inside⟩ | earlier
  · rcases mem_cons.mp outerMember with rfl | outerMember
    · exact .inl inside
    · exact .inr (.inr ((sorted.cons.2.1 outer outerMember).trans inside.1))
  · exact .inr (.inl (earlier desc mem_cons_self))

theorem Pending.tail : Pending rear attrs := by
  intro attr member
  rcases pending attr member with ⟨outer, outerMember, runtime, inside⟩ | earlier
  · rcases mem_cons.mp outerMember with rfl | outerMember
    · exact .inr fun later laterMember => inside.2.trans (sorted.cons.2.1 later laterMember)
    · exact .inl ⟨outer, outerMember, runtime, inside⟩
  · exact .inr fun later laterMember => earlier later (mem_cons_of_mem _ laterMember)

theorem Pending.retyped
    (same : isRuntime desc.type → SameType desc attrs) : Retyped attrs [desc] [desc] := by
  apply Retyped.refl
  intro attr member other otherMember page attrCovers covers
  rw [mem_singleton.mp otherMember] at covers ⊢
  rcases pending attr member with ⟨outer, outerMember, runtime, inside⟩ | earlier
  · rcases mem_cons.mp outerMember with rfl | outerMember
    · exact same runtime attr member inside
    · have apart := sorted.cons.2.1 outer outerMember
      have outerCovers := inside.covers attrCovers
      exact absurd (lt_of_lt_of_le covers.2 (apart.trans outerCovers.1)) (lt_irrefl _)
  · have apart := earlier desc mem_cons_self
    exact absurd (lt_of_lt_of_le attrCovers.2 (apart.trans covers.1)) (lt_irrefl _)

end

theorem later_behind (sorted : SortedDisjoint (skipped ++ attr :: later)) :
    ∀ other ∈ later, ending attr ≤ other.physicalStart ∧ other.physicalStart < ending other := by
  intro other member
  have following := sorted.append.2.cons
  refine ⟨following.2.1 other member, ?_⟩
  have positive := (following.2.2.valid other member).positive
  rw [ending, efiPageSize_val]
  omega

/-- What is behind an attribute of the descriptor is in the part behind it, or further on. -/
theorem Pending.after (pending : Pending (desc :: rear) (skipped ++ attr :: later))
    (sorted : SortedDisjoint (skipped ++ attr :: later)) (inside : Contains desc attr)
    (kept : ∀ other ∈ later, isRuntime desc.type → Contains desc other →
      isRuntime current.type ∧ Contains current other) : Pending (current :: rear) later := by
  intro other member
  obtain ⟨behind, positive⟩ := later_behind sorted other member
  have attrPositive := (sorted.append.2.cons.1).positive
  have attrEnds : ending attr = attr.physicalStart + attr.numberOfPages * 4096 := rfl
  rcases pending other (mem_append_right _ (mem_cons_of_mem _ member)) with
    ⟨outer, outerMember, runtime, contains⟩ | earlier
  · rcases mem_cons.mp outerMember with rfl | outerMember
    · exact .inl ⟨current, mem_cons_self, kept other member runtime contains⟩
    · exact .inl ⟨outer, mem_cons_of_mem _ outerMember, runtime, contains⟩
  · have before := earlier desc mem_cons_self
    have starts := inside.1
    omega

theorem Pending.skipped_retyped (pending : Pending (desc :: rear) (skipped ++ attr :: later))
    (sorted : SortedDisjoint (desc :: rear))
    (attrsSorted : SortedDisjoint (skipped ++ attr :: later)) (inside : Contains desc attr)
    (sameType : SameType desc skipped) : Retyped skipped (desc :: rear) (desc :: rear) := by
  have here : Retyped skipped [desc] [desc] := by
    have pendingSkipped : Pending (desc :: rear) skipped :=
      fun other member => pending other (mem_append_left _ member)
    exact pendingSkipped.retyped sorted fun _ => sameType
  have behind : Retyped skipped rear rear := by
    apply Retyped.refl_of_apart
    intro other member later laterMember
    have apart := (pairwise_append.mp attrsSorted.sorted).2.2 other member attr mem_cons_self
    have next := sorted.cons.2.1 later laterMember
    have ends := inside.2
    have attrPositive := (attrsSorted.append.2.cons.1).positive
    have attrEnds : ending attr = attr.physicalStart + attr.numberOfPages * 4096 := rfl
    omega
  exact here.append behind fun _ => rfl

theorem split_composes {done skipped later final : List MemoryDescriptor}
    (sorted : SortedDisjoint (desc :: rear)) (attrsSorted : SortedDisjoint (skipped ++ attr :: later))
    (pending : Pending (desc :: rear) (skipped ++ attr :: later)) (inside : Contains desc attr)
    (sameType : SameType desc skipped)
    (partitions : Partitions [desc] (done ++ [current]))
    (retyped : Retyped [attr] [desc] (done ++ [current]))
    (ends : ∀ piece ∈ done, ending piece ≤ ending attr)
    (following : Partitions (current :: rear) final) :
    Partitions (desc :: rear) (done ++ final) ∧ (Retyped later (current :: rear) final →
        Retyped (skipped ++ attr :: later) (desc :: rear) (done ++ final)) := by
  have split : Partitions (desc :: rear) (done ++ [current] ++ rear) :=
    partitions.append sorted (Partitions.refl sorted.cons.2.2)
  rw [append_assoc, singleton_append] at split
  have doneSorted : SortedDisjoint done := split.sorted.append.1
  constructor
  · exact split.trans ((Partitions.refl doneSorted).append split.sorted following)
  · intro followed
    have rearKept : Retyped [attr] rear rear := by
      apply Retyped.refl_of_apart
      intro other member later laterMember
      rw [mem_singleton.mp member]
      exact .inr (inside.2.trans (sorted.cons.2.1 later laterMember))
    have marked : Retyped [attr] (desc :: rear) (done ++ [current] ++ rear) :=
      retyped.append rearKept partitions.same
    rw [append_assoc, singleton_append] at marked
    have doneKept : Retyped later done done := by
      apply Retyped.refl_of_apart
      intro other member piece pieceMember
      exact .inl ((ends piece pieceMember).trans (later_behind attrsSorted other member).1)
    have finished : Retyped later (done ++ (current :: rear)) (done ++ final) :=
      doneKept.append followed fun _ => rfl
    have passed := pending.skipped_retyped sorted attrsSorted inside sameType
    exact passed.trans attrsSorted (marked.trans attrsSorted.append.2 finished)

structure Walked (rear attrs : List MemoryDescriptor) (status : EfiStatus)
    (final : List MemoryDescriptor) : Prop where
  partitions : Partitions rear final
  ended : status = .success ∨ status = .outOfResources
  retyped : status = .success → Retyped attrs rear final

theorem Walked.cons {status : EfiStatus} {final : List MemoryDescriptor}
    (sorted : SortedDisjoint (desc :: rear)) (here : Retyped attrs [desc] [desc])
    (walked : Walked rear attrs status final) : Walked (desc :: rear) attrs status (desc :: final) where
  partitions := by
    have single : SortedDisjoint [desc] := by
      refine ⟨?_, pairwise_singleton _ _⟩
      intro other member
      rw [mem_singleton.mp member]
      exact sorted.cons.1
    exact (Partitions.refl single).append sorted walked.partitions
  ended := walked.ended
  retyped success := here.append (walked.retyped success) fun _ => rfl

def Reaches (total : Nat) (front rear attrs : List MemoryDescriptor)
    (result : Option (EfiStatus × List MemoryDescriptor)) : Prop :=
  ∃ status final, result = some (status, front ++ final) ∧ Walked rear attrs status final ∧
    (front ++ final).length ≤ total

section

variable (sorted : SortedDisjoint (desc :: rear))
include sorted

theorem Reaches.pass {result : Option (EfiStatus × List MemoryDescriptor)} (here : Retyped attrs [desc] [desc])
    (reaches : Reaches total (front ++ [desc]) rear attrs result) :
    Reaches total front (desc :: rear) attrs result := by
  obtain ⟨status, final, ran, walked, bound⟩ := reaches
  have moved : front ++ [desc] ++ final = front ++ desc :: final :=
    (append_cons front desc final).symm
  rw [moved] at ran bound
  exact ⟨status, desc :: final, ran, walked.cons sorted here, bound⟩

section

variable (attrsSorted : SortedDisjoint (skipped ++ attr :: later))
  (pending : Pending (desc :: rear) (skipped ++ attr :: later)) (inside : Contains desc attr)
include attrsSorted pending inside

/-- The last part of a descriptor that the attribute reaches the end of, with what follows. -/
theorem marked_follows (ends : ending attr = ending desc) :
    SortedDisjoint (marked desc attr :: rear) ∧ Pending (marked desc attr :: rear) later := by
  have partitions := (exact_partitions sorted.cons.1 attrsSorted.append.2.cons.1 inside ends).1
  have split : Partitions (desc :: rear) (before desc attr ++ [marked desc attr] ++ rear) :=
    partitions.append sorted (Partitions.refl sorted.cons.2.2)
  rw [append_assoc, singleton_append] at split
  refine ⟨split.sorted.append.2, pending.after attrsSorted inside ?_⟩
  intro other member _ contains
  obtain ⟨behind, positive⟩ := later_behind attrsSorted other member
  have beyond := contains.2
  omega

theorem behind_follows (parts : ending attr < ending desc) :
    SortedDisjoint (behind desc attr :: rear) ∧ Pending (behind desc attr :: rear) later := by
  have validDesc := sorted.cons.1
  have validAttr := attrsSorted.append.2.cons.1
  have partitions := (parted_partitions validDesc validAttr inside parts).1
  rw [← append_assoc] at partitions
  have split : Partitions (desc :: rear)
      (before desc attr ++ [marked desc attr] ++ [behind desc attr] ++ rear) :=
    partitions.append sorted (Partitions.refl sorted.cons.2.2)
  rw [append_assoc, singleton_append] at split
  refine ⟨split.sorted.append.2, pending.after attrsSorted inside ?_⟩
  intro other member runtime contains
  refine ⟨runtime, (later_behind attrsSorted other member).1, ?_⟩
  rw [ending_behind validDesc validAttr parts]
  exact contains.2

theorem Reaches.split {walkOn : Position → Option (EfiStatus × List MemoryDescriptor)}
    (sameType : SameType desc skipped) (room : (front ++ desc :: rear).length ≤ total)
    (onward : ∀ passed current, SortedDisjoint (current :: rear) → Pending (current :: rear) later →
      (passed ++ current :: rear).length ≤ total → Reaches total passed (current :: rear) later
        (walkOn ⟨passed ++ current :: rear, passed.length⟩)) :
    Reaches total front (desc :: rear) (skipped ++ attr :: later)
      (match ocSplitMemoryEntryByAttribute total attr ⟨front ++ desc :: rear, front.length⟩ with
      | .ok next => walkOn next
      | .error stopped => some (.outOfResources, stopped.memoryMap)) := by
  have validDesc := sorted.cons.1
  have validAttr := attrsSorted.append.2.cons.1
  have rearSorted := sorted.cons.2.2
  have attrPositive := validAttr.positive
  have attrEnds : ending attr = attr.physicalStart + attr.numberOfPages * 4096 := rfl
  have split := ocSplitMemoryEntryByAttribute_spec validDesc validAttr inside room
  generalize ocSplitMemoryEntryByAttribute total attr ⟨front ++ desc :: rear, front.length⟩ = result
    at split
  have stops : EfiStatus.outOfResources ≠ EfiStatus.success := by decide
  cases split with
  | refused stopped unchanged =>
    dsimp only
    rw [unchanged]
    exact ⟨_, _, rfl, ⟨Partitions.refl sorted, .inr rfl, fun same => absurd same stops⟩, room⟩
  | halved stopped halves full =>
    have cut := (before_rest_partitions validDesc validAttr inside).1
    have parts : stopped.memoryMap = front ++ (before desc attr ++ [rest desc attr] ++ rear) := by
      rw [halves, append_assoc, append_assoc, singleton_append]
    dsimp only
    rw [parts] at full ⊢
    refine ⟨_, _, rfl, ⟨?_, .inr rfl, fun same => absurd same stops⟩, le_of_eq full⟩
    exact cut.append sorted (Partitions.refl rearSorted)
  | exact next ends parts index bound =>
    obtain ⟨partitions, retyped⟩ := exact_partitions validDesc validAttr inside ends
    obtain ⟨currentSorted, following⟩ := marked_follows sorted attrsSorted pending inside ends
    obtain ⟨memoryMap, position⟩ := next
    dsimp only at parts index bound ⊢
    subst parts index
    obtain ⟨status, final, ran, walked, within⟩ := onward _ _ currentSorted following bound
    have composed := split_composes sorted attrsSorted pending inside sameType partitions retyped
      (fun piece member => (before_apart piece member).trans (by omega)) walked.partitions
    rw [append_assoc front _ final] at ran within
    exact ⟨status, _, ran, ⟨composed.1, walked.ended, fun success =>
      composed.2 (walked.retyped success)⟩, within⟩
  | parted next ends parts index bound =>
    obtain ⟨partitions, retyped⟩ := parted_partitions validDesc validAttr inside ends
    rw [← append_assoc] at partitions retyped
    obtain ⟨currentSorted, following⟩ := behind_follows sorted attrsSorted pending inside ends
    have parts : next.memoryMap =
        front ++ (before desc attr ++ [marked desc attr]) ++ behind desc attr :: rear := by
      rw [parts, append_cons, append_assoc front]
    rw [append_assoc front] at index
    obtain ⟨memoryMap, position⟩ := next
    dsimp only at parts index bound ⊢
    subst parts index
    obtain ⟨status, final, ran, walked, within⟩ := onward _ _ currentSorted following bound
    have doneEnds : ∀ piece ∈ before desc attr ++ [marked desc attr], ending piece ≤ ending attr := by
      intro piece member
      rcases mem_append.mp member with member | member
      · exact (before_apart piece member).trans (by omega)
      · rw [mem_singleton.mp member, ending_marked]
    have composed := split_composes sorted attrsSorted pending inside sameType partitions retyped
      doneEnds walked.partitions
    rw [append_assoc front _ final] at ran within
    exact ⟨status, _, ran, ⟨composed.1, walked.ended, fun success =>
      composed.2 (walked.retyped success)⟩, within⟩

end

end

end Walk

/-- What the caller gets: a partition of the map within the maximum, and on success with
the types of the attributes. -/
structure Rebuilt (attributes memoryMap : List MemoryDescriptor)
    (maxMemoryMapSize descriptorSize : Nat) (status : EfiStatus) (size : Nat)
    (final : List MemoryDescriptor) : Prop where
  partitions : Partitions memoryMap final
  sized : size = final.length * descriptorSize
  bound : size ≤ maxMemoryMapSize
  ended : status = .success ∨ status = .outOfResources
  inside : status = .success → ∀ page, ∀ attr ∈ attributes, Covers attr page →
    ∃ type flags, kindAt memoryMap page = some (type, flags) ∧
      kindAt final page = some (ocRealMemoryType attr, flags)
  outside : status = .success → ∀ page, (∀ attr ∈ attributes, ¬ Covers attr page) →
    kindAt final page = kindAt memoryMap page

end OpenCore.MemoryMapWalk
