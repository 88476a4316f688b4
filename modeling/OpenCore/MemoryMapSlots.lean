import Mathlib.Algebra.Ring.Nat
import Mathlib.Data.Finset.Card
import Mathlib.Data.Finset.Insert
import OpenCore.MemoryMapWalk

/-!
The slots that splitting a memory map takes. Each split cuts a runtime descriptor where an
attribute of another type begins or ends, so the walk needs a slot for every such address
inside a descriptor. `OcCountSplitDescriptors` reserves one for every runtime attribute.
-/

namespace OpenCore.MemoryMapSlots

open Base MemoryAttributes MemoryMapPages MemoryMapSplit MemoryMapWalk List

section Source

def ocCountSplitDescriptors : Option (List MemoryDescriptor) → Nat
  | none => 0
  | some attributes => attributes.countP fun attr => isRuntime attr.type

end Source

section Cuts

def changing (desc : MemoryDescriptor) (attrs : List MemoryDescriptor) : List MemoryDescriptor :=
  attrs.filter fun attr => isRuntime attr.type ∧ desc.physicalStart ≤ attr.physicalStart ∧
    ending attr ≤ ending desc ∧ ocRealMemoryType attr ≠ desc.type

def cuts (desc : MemoryDescriptor) (attrs : List MemoryDescriptor) : Finset Nat :=
  ((changing desc attrs).flatMap fun attr => [attr.physicalStart, ending attr]).toFinset.filter
    fun address => desc.physicalStart < address ∧ address < ending desc

def cutCount (memoryMap attrs : List MemoryDescriptor) : Nat :=
  (memoryMap.map fun desc => if isRuntime desc.type then (cuts desc attrs).card else 0).sum

variable {desc attr : MemoryDescriptor} {attrs rear : List MemoryDescriptor} {address : Nat}

theorem mem_changing : attr ∈ changing desc attrs ↔
    attr ∈ attrs ∧ isRuntime attr.type = true ∧ Contains desc attr ∧
      ocRealMemoryType attr ≠ desc.type := by
  rw [changing, mem_filter, decide_eq_true_eq, Contains, and_assoc (a := desc.physicalStart ≤ _)]

theorem mem_cuts : address ∈ cuts desc attrs ↔
    (∃ attr ∈ changing desc attrs, address = attr.physicalStart ∨ address = ending attr) ∧
      desc.physicalStart < address ∧ address < ending desc := by
  simp only [cuts, Finset.mem_filter, mem_toFinset, mem_flatMap, mem_cons, not_mem_nil, or_false]

theorem cuts_eq_empty (same : changing desc attrs = []) : cuts desc attrs = ∅ := by
  rw [cuts, same]
  rfl

theorem changing_eq_nil (same : SameType desc attrs) : changing desc attrs = [] := by
  rw [eq_nil_iff_forall_not_mem]
  intro attr member
  obtain ⟨listed, _, inside, differs⟩ := mem_changing.mp member
  exact differs (same attr listed inside)

theorem cutCount_cons : cutCount (desc :: rear) attrs =
    (if isRuntime desc.type then (cuts desc attrs).card else 0) + cutCount rear attrs := by
  rw [cutCount, map_cons, sum_cons, ← cutCount]

theorem cutCount_congr {others : List MemoryDescriptor}
    (same : ∀ desc ∈ rear, changing desc attrs = changing desc others) :
    cutCount rear attrs = cutCount rear others := by
  rw [cutCount, cutCount]
  congr 1
  apply map_congr_left
  intro desc member
  rw [cuts, cuts, same desc member]

end Cuts

section Split
variable {front rear skipped later : List MemoryDescriptor} {desc attr : MemoryDescriptor}
  {total : Nat}

def inserted (desc attr : MemoryDescriptor) : Nat :=
  (before desc attr).length + if ending attr < ending desc then 1 else 0

/-- Of the attributes up to the first one that changes the descriptor, only this one does. -/
theorem changing_first (runtime : isRuntime attr.type = true) (inside : Contains desc attr)
    (differs : ocRealMemoryType attr ≠ desc.type) (sameType : SameType desc skipped) :
    changing desc (skipped ++ attr :: later) = attr :: changing desc later := by
  have kept : changing desc (attr :: later) = attr :: changing desc later := by
    rw [changing, filter_cons_of_pos, ← changing]
    exact decide_eq_true ⟨runtime, inside.1, inside.2, differs⟩
  rw [changing, filter_append, ← changing, ← changing, changing_eq_nil sameType, kept, nil_append]

theorem changing_behind (validDesc : Valid desc) (validAttr : Valid attr)
    (parts : ending attr < ending desc) (inside : Contains desc attr)
    (follows : ∀ other ∈ later, ending attr ≤ other.physicalStart ∧ other.physicalStart < ending other) :
    changing (behind desc attr) later = changing desc later := by
  apply filter_congr
  intro other member
  have first := follows other member
  have start : (behind desc attr).physicalStart = ending attr := rfl
  have type : (behind desc attr).type = desc.type := rfl
  have attrStarts : attr.physicalStart ≤ ending attr := Nat.le_add_right _ _
  have low : desc.physicalStart ≤ other.physicalStart := inside.1.trans (attrStarts.trans first.1)
  rw [start, type, ending_behind validDesc validAttr parts]
  simp only [first.1, low, true_and]

/-- An attribute that reaches the end of its descriptor leaves no attribute behind it there. -/
theorem changing_exact (ends : ending attr = ending desc)
    (follows : ∀ other ∈ later, ending attr ≤ other.physicalStart ∧ other.physicalStart < ending other)
    {current : MemoryDescriptor} (same : ending current = ending desc) :
    changing current later = [] := by
  rw [eq_nil_iff_forall_not_mem]
  intro other listed
  obtain ⟨member, _, within, _⟩ := mem_changing.mp listed
  have first := follows other member
  have last := within.2
  omega

/-- A descriptor with pages behind the attribute: both ends of the attribute are cuts, unless
it begins with the descriptor, and the others are those of the part behind it. -/
theorem card_cuts_parted (validDesc : Valid desc) (validAttr : Valid attr)
    (parts : ending attr < ending desc) (inside : Contains desc attr)
    (changes : changing desc attrs = attr :: changing desc later)
    (follows : ∀ other ∈ later, ending attr ≤ other.physicalStart ∧ other.physicalStart < ending other) :
    (cuts desc attrs).card = inserted desc attr + (cuts (behind desc attr) later).card := by
  have positive := validAttr.positive
  have attrEnds : ending attr = attr.physicalStart + attr.numberOfPages * 4096 := rfl
  have starts := inside.1
  have behindStart : (behind desc attr).physicalStart = ending attr := rfl
  have fresh : ending attr ∉ cuts (behind desc attr) later := by
    rw [mem_cuts, behindStart]
    omega
  have whole : cuts desc attrs =
      (if desc.physicalStart < attr.physicalStart then {attr.physicalStart} else ∅) ∪
        insert (ending attr) (cuts (behind desc attr) later) := by
    ext address
    rw [mem_cuts, changes, Finset.mem_union, Finset.mem_insert, mem_cuts,
      changing_behind validDesc validAttr parts inside follows,
      ending_behind validDesc validAttr parts, behindStart]
    simp only [exists_mem_cons_iff]
    constructor
    · rintro ⟨(rfl | rfl) | ⟨other, listed, at'⟩, low, high⟩
      · exact .inl (by rw [if_pos low]; exact Finset.mem_singleton_self _)
      · exact .inr (.inl rfl)
      · have first := follows other (mem_changing.mp listed).1
        by_cases same : address = ending attr
        · exact .inr (.inl same)
        · refine .inr (.inr ⟨⟨other, listed, at'⟩, ?_, high⟩)
          omega
    · rintro (begins | rfl | ⟨⟨other, listed, at'⟩, low, high⟩)
      · split at begins
        · rename_i later'
          have same := Finset.mem_singleton.mp begins
          exact ⟨.inl (.inl same), by omega, by omega⟩
        · cases begins
      · exact ⟨.inl (.inr rfl), by omega, parts⟩
      · exact ⟨.inr ⟨other, listed, at'⟩, by omega, high⟩
  have apart : Disjoint (if desc.physicalStart < attr.physicalStart then {attr.physicalStart} else ∅)
      (insert (ending attr) (cuts (behind desc attr) later)) := by
    rw [Finset.disjoint_left]
    intro address begins rest
    split at begins
    · rename_i later'
      have same := Finset.mem_singleton.mp begins
      rcases Finset.mem_insert.mp rest with rfl | behind
      · omega
      · have low := (mem_cuts.mp behind).2.1
        rw [behindStart] at low
        omega
    · cases begins
  rw [whole, Finset.card_union_of_disjoint apart, Finset.card_insert_of_notMem fresh, inserted,
    if_pos parts, before]
  split
  · rw [Finset.card_singleton, length_singleton]
    omega
  · rw [Finset.card_empty, length_nil]
    omega

theorem card_cuts_exact (validAttr : Valid attr) (ends : ending attr = ending desc)
    (inside : Contains desc attr) (changes : changing desc attrs = attr :: changing desc later)
    (follows : ∀ other ∈ later, ending attr ≤ other.physicalStart ∧ other.physicalStart < ending other) :
    (cuts desc attrs).card = inserted desc attr := by
  have positive := validAttr.positive
  have attrEnds : ending attr = attr.physicalStart + attr.numberOfPages * 4096 := rfl
  have whole : cuts desc attrs =
      if desc.physicalStart < attr.physicalStart then {attr.physicalStart} else ∅ := by
    ext address
    rw [mem_cuts, changes, changing_exact ends follows rfl]
    simp only [mem_singleton, exists_eq_left]
    split
    · rw [Finset.mem_singleton]
      omega
    · have starts := inside.1
      rw [iff_false_right (Finset.notMem_empty address)]
      omega
  have last : ¬ending attr < ending desc := by omega
  rw [whole, inserted, before, if_neg last]
  split
  · rfl
  · rfl

theorem split_refused {stopped : Position} (validDesc : Valid desc) (validAttr : Valid attr)
    (inside : Contains desc attr) (room : (front ++ desc :: rear).length ≤ total)
    (failed : ocSplitMemoryEntryByAttribute total attr ⟨front ++ desc :: rear, front.length⟩ =
      .error stopped) : total < (front ++ desc :: rear).length + inserted desc attr := by
  rw [ocSplitMemoryEntryByAttribute] at failed
  simp only [getElem?_append_length] at failed
  rcases splitBefore_spec validDesc validAttr inside room with
    refused | ⟨middle, split, parts, index, left⟩
  · unfold splitBefore at refused
    split at refused
    · rename_i later
      split at refused
      · rename_i full
        rw [inserted, before, if_pos later, length_singleton]
        dsimp only at full
        omega
      · cases refused
    · cases refused
  · have entry : middle.memoryMap[middle.index]? = some (rest desc attr) := by
      rw [parts, index, getElem?_append_length]
    have length : middle.memoryMap.length = (front ++ desc :: rear).length + (before desc attr).length := by
      rw [parts]
      simp only [length_append, length_cons]
      omega
    rw [split] at failed
    simp only [bind, Except.bind, entry] at failed
    rcases splitBehind_spec validDesc validAttr inside parts index left with
      ⟨refused, full⟩ | ⟨next, parted, result⟩
    · have longer : (rest desc attr).numberOfPages ≠ attr.numberOfPages := by
        intro same
        rw [splitBehind, if_pos same] at refused
        cases refused
      have more : ending attr < ending desc := by
        have pages : (rest desc attr).numberOfPages = (ending desc - attr.physicalStart) / 4096 := rfl
        have attrEnds : ending attr = attr.physicalStart + attr.numberOfPages * 4096 := rfl
        have ends := inside.2
        omega
      rw [inserted, if_pos more]
      omega
    · rw [parted] at failed
      cases failed

end Split

section Walk
variable {front rear attrs : List MemoryDescriptor} {desc attr : MemoryDescriptor}

/-- A walk ends, and runs out of slots exactly where the cuts of what is left are too many. -/
def Slots (total : Nat) (front rear attrs : List MemoryDescriptor)
    (result : Option (EfiStatus × List MemoryDescriptor)) : Prop :=
  ∃ status final, result = some (status, final) ∧
    (status = .outOfResources ↔ total < (front ++ rear).length + cutCount rear attrs)

theorem Slots.pass {total : Nat} {result : Option (EfiStatus × List MemoryDescriptor)}
    (uncut : isRuntime desc.type = true → SameType desc attrs)
    (slots : Slots total (front ++ [desc]) rear attrs result) :
    Slots total front (desc :: rear) attrs result := by
  obtain ⟨status, final, ran, fails⟩ := slots
  have none : (if isRuntime desc.type then (cuts desc attrs).card else 0) = 0 := by
    split
    · rename_i runtime
      rw [cuts_eq_empty (changing_eq_nil (uncut runtime)), Finset.card_empty]
    · rfl
  refine ⟨status, final, ran, fails.trans ?_⟩
  rw [cutCount_cons, none, zero_add, ← append_cons]

/-- What comes behind a descriptor contains no attribute up to one that the descriptor contains. -/
theorem changing_rear {skipped later : List MemoryDescriptor}
    (sorted : SortedDisjoint (desc :: rear)) (attrsSorted : SortedDisjoint (skipped ++ attr :: later))
    (inside : Contains desc attr) :
    ∀ other ∈ rear, changing other (skipped ++ attr :: later) = changing other later := by
  intro other member
  have apart := sorted.cons.2.1 other member
  have ends := inside.2
  have begins : attr.physicalStart < ending attr := by
    have positive := attrsSorted.append.2.cons.1.positive
    rw [ending, efiPageSize_val]
    omega
  have before : changing other (skipped ++ [attr]) = [] := by
    rw [eq_nil_iff_forall_not_mem]
    intro early listed
    obtain ⟨earlyMember, _, contained, _⟩ := mem_changing.mp listed
    have low := contained.1
    rcases mem_append.mp earlyMember with passed | here
    · have first := (pairwise_append.mp attrsSorted.sorted).2.2 early passed attr mem_cons_self
      have positive := (attrsSorted.append.1.valid early passed).positive
      have earlyEnds : ending early = early.physicalStart + early.numberOfPages * 4096 := rfl
      omega
    · rw [mem_singleton.mp here] at low
      omega
  rw [append_cons, changing, filter_append, ← changing, ← changing, before, nil_append]

theorem Slots.split {total : Nat} {skipped later : List MemoryDescriptor}
    {walkOn : Position → Option (EfiStatus × List MemoryDescriptor)}
    (sorted : SortedDisjoint (desc :: rear)) (isRun : isRuntime desc.type = true)
    (attrsSorted : SortedDisjoint (skipped ++ attr :: later)) (runtime : isRuntime attr.type = true)
    (inside : Contains desc attr) (differs : ocRealMemoryType attr ≠ desc.type)
    (sameType : SameType desc skipped) (room : (front ++ desc :: rear).length ≤ total)
    (exactly : ∀ next, ending attr = ending desc →
      next = ⟨front ++ before desc attr ++ marked desc attr :: rear,
        (front ++ before desc attr).length⟩ → next.memoryMap.length ≤ total →
      Slots total (front ++ before desc attr) (marked desc attr :: rear) later (walkOn next))
    (behindIt : ∀ next, ending attr < ending desc →
      next = ⟨front ++ before desc attr ++ [marked desc attr] ++ behind desc attr :: rear,
        (front ++ before desc attr ++ [marked desc attr]).length⟩ → next.memoryMap.length ≤ total →
      Slots total (front ++ before desc attr ++ [marked desc attr]) (behind desc attr :: rear) later
        (walkOn next)) :
    Slots total front (desc :: rear) (skipped ++ attr :: later)
      (match ocSplitMemoryEntryByAttribute total attr ⟨front ++ desc :: rear, front.length⟩ with
      | .ok next => walkOn next
      | .error stopped => some (.outOfResources, stopped.memoryMap)) := by
  have validDesc := sorted.cons.1
  have validAttr := attrsSorted.append.2.cons.1
  have follows := later_behind attrsSorted
  have changes : changing desc (skipped ++ attr :: later) = attr :: changing desc later :=
    changing_first runtime inside differs sameType
  have others := cutCount_congr (changing_rear sorted attrsSorted inside)
  have spec := ocSplitMemoryEntryByAttribute_spec validDesc validAttr inside room
  have refused : ∀ stopped, ocSplitMemoryEntryByAttribute total attr
      ⟨front ++ desc :: rear, front.length⟩ = .error stopped →
        total < (front ++ desc :: rear).length + inserted desc attr := fun stopped failed =>
    split_refused validDesc validAttr inside room failed
  have least : inserted desc attr ≤ (cuts desc (skipped ++ attr :: later)).card := by
    rcases lt_or_eq_of_le inside.2 with parts | ends
    · rw [card_cuts_parted validDesc validAttr parts inside changes follows]
      exact Nat.le_add_right _ _
    · rw [card_cuts_exact validAttr ends inside changes follows]
  unfold Slots
  rw [cutCount_cons, if_pos isRun, others]
  generalize ocSplitMemoryEntryByAttribute total attr ⟨front ++ desc :: rear, front.length⟩ = result
    at spec refused
  cases spec with
  | refused stopped _ | halved stopped _ _ =>
    have short := refused stopped rfl
    exact ⟨_, _, rfl, fun _ => by omega, fun _ => rfl⟩
  | exact next ends parts index bound =>
    obtain ⟨memoryMap, position⟩ := next
    dsimp only at parts index
    subst parts index
    obtain ⟨status, final, ran, fails⟩ := exactly _ ends rfl bound
    have taken := card_cuts_exact validAttr ends inside changes follows
    have done : cuts (marked desc attr) later = ∅ :=
      cuts_eq_empty (changing_exact ends follows ((ending_marked).trans ends))
    refine ⟨status, final, ran, fails.trans ?_⟩
    rw [cutCount_cons, done, Finset.card_empty, ite_self, zero_add, taken, inserted,
      if_neg (by omega)]
    simp only [length_append, length_cons]
    omega
  | parted next ends parts index bound =>
    have shape : next.memoryMap =
        front ++ before desc attr ++ [marked desc attr] ++ behind desc attr :: rear := by
      rw [parts, append_cons]
    obtain ⟨memoryMap, position⟩ := next
    dsimp only at shape index
    subst shape index
    obtain ⟨status, final, ran, fails⟩ := behindIt _ ends rfl bound
    have taken := card_cuts_parted validDesc validAttr ends inside changes follows
    have type : (behind desc attr).type = desc.type := rfl
    refine ⟨status, final, ran, fails.trans ?_⟩
    rw [cutCount_cons, type, if_pos isRun, taken, inserted, if_pos ends]
    simp only [length_append, length_cons, length_nil]
    omega

end Walk

section Search
variable {entry attr : MemoryDescriptor} {attrs : List MemoryDescriptor}
variable {inDescAttrs : Bool}

def runtimeAttributes (attrs : List MemoryDescriptor) : List MemoryDescriptor :=
  attrs.filter fun attr => isRuntime attr.type

theorem runtimeAttributes_runtime : ∀ attr ∈ runtimeAttributes attrs, isRuntime attr.type = true :=
  fun _ member => (mem_filter.mp member).2

theorem runtimeAttributes_cons : runtimeAttributes (attr :: attrs) =
    if isRuntime attr.type then attr :: runtimeAttributes attrs else runtimeAttributes attrs :=
  filter_cons

theorem changing_runtimeAttributes :
    changing entry (runtimeAttributes attrs) = changing entry attrs := by
  rw [changing, changing, runtimeAttributes, filter_filter]
  apply filter_congr
  intro attr _
  cases isRuntime attr.type <;> simp

theorem cutCount_runtimeAttributes {memoryMap : List MemoryDescriptor} :
    cutCount memoryMap (runtimeAttributes attrs) = cutCount memoryMap attrs :=
  cutCount_congr fun _ _ => changing_runtimeAttributes

theorem findAttribute_none {index start : Nat}
    (failed : findAttribute entry inDescAttrs index attrs = none) :
    findAttribute entry inDescAttrs start (runtimeAttributes attrs) = none := by
  induction attrs generalizing inDescAttrs index start with
  | nil => rfl
  | cons attr rest ih =>
    rw [findAttribute] at failed
    rw [runtimeAttributes_cons]
    split at failed
    · rename_i runtime
      rw [if_pos runtime, findAttribute, if_pos runtime]
      split at failed
      · rename_i area
        rw [if_pos area]
        split at failed
        · cases failed
        · rename_i sameType
          rw [if_neg sameType]
          exact ih failed
      · rename_i area
        rw [if_neg area]
        split at failed
        · rename_i followed
          rw [if_pos followed]
        · rename_i followed
          rw [if_neg followed]
          exact ih failed
    · rename_i other
      rw [if_neg other]
      exact ih failed

theorem findAttribute_some {index found : Nat}
    (hit : findAttribute entry inDescAttrs index attrs = some (found, attr)) :
    ∃ skipped later, attrs = skipped ++ attr :: later ∧ found = index + skipped.length ∧
      isRuntime attr.type = true ∧ ocRealMemoryType attr ≠ entry.type ∧
      ∀ start, findAttribute entry inDescAttrs start (runtimeAttributes attrs) =
        some (start + (runtimeAttributes skipped).length, attr) := by
  induction attrs generalizing inDescAttrs index with
  | nil => cases hit
  | cons first rest ih =>
    rw [findAttribute] at hit
    split at hit
    · rename_i runtime
      have passed : ∀ {flag}, findAttribute entry flag (index + 1) rest = some (found, attr) →
          (∀ start, findAttribute entry inDescAttrs start (runtimeAttributes (first :: rest)) =
            findAttribute entry flag (start + 1) (runtimeAttributes rest)) →
          ∃ skipped later, first :: rest = skipped ++ attr :: later ∧
            found = index + skipped.length ∧ isRuntime attr.type = true ∧
            ocRealMemoryType attr ≠ entry.type ∧
            ∀ start, findAttribute entry inDescAttrs start (runtimeAttributes (first :: rest)) =
              some (start + (runtimeAttributes skipped).length, attr) := by
        intro flag later goesOn
        obtain ⟨skipped, behind, parts, at', isRun, differs, same⟩ := ih later
        refine ⟨first :: skipped, behind, congrArg (first :: ·) parts, ?_, isRun, differs, ?_⟩
        · rw [at', length_cons]
          omega
        · intro start
          rw [goesOn, same, runtimeAttributes_cons, if_pos runtime, length_cons]
          congr 2
          omega
      split at hit
      · rename_i area
        split at hit
        · rename_i differs
          cases hit
          refine ⟨[], rest, rfl, rfl, runtime, differs, ?_⟩
          intro start
          rw [runtimeAttributes_cons, if_pos runtime, findAttribute, if_pos runtime,
            if_pos area, if_pos differs]
          rfl
        · rename_i sameType
          apply passed hit
          intro start
          rw [runtimeAttributes_cons, if_pos runtime, findAttribute, if_pos runtime,
            if_pos area, if_neg sameType]
      · rename_i area
        split at hit
        · cases hit
        · rename_i followed
          apply passed hit
          intro start
          rw [runtimeAttributes_cons, if_pos runtime, findAttribute, if_pos runtime,
            if_neg area, if_neg followed]
    · rename_i other
      obtain ⟨skipped, behind, parts, at', isRun, differs, same⟩ := ih hit
      refine ⟨first :: skipped, behind, congrArg (first :: ·) parts, ?_, isRun, differs, ?_⟩
      · rw [at', length_cons]
        omega
      · rw [runtimeAttributes_cons, if_neg other, runtimeAttributes_cons, if_neg other]
        exact same

end Search

section Run
variable {front rear : List MemoryDescriptor}

theorem splitEntries_slots {total fuel last : Nat} {attributes : List MemoryDescriptor}
    (sorted : SortedDisjoint rear)
    (attrsSorted : SortedDisjoint (runtimeAttributes (attributes.drop last)))
    (pending : Pending rear (runtimeAttributes (attributes.drop last)))
    (room : (front ++ rear).length ≤ total)
    (enough : rear.length + (attributes.drop last).length < fuel) :
    Slots total front rear (runtimeAttributes (attributes.drop last))
      (splitEntries total attributes fuel last ⟨front ++ rear, front.length⟩) := by
  induction fuel generalizing front rear last with
  | zero => exact absurd enough (Nat.not_lt_zero _)
  | succ fuel ih =>
    rw [splitEntries]
    cases rear with
    | nil =>
      have none : (front ++ [])[front.length]? = (none : Option MemoryDescriptor) := by
        rw [append_nil, getElem?_eq_none (le_refl _)]
      simp only [none]
      refine ⟨.success, _, rfl, ?_⟩
      have stops : EfiStatus.success ≠ EfiStatus.outOfResources := by decide
      constructor
      · exact fun same => absurd same stops
      · intro short
        exact absurd room (Nat.not_le_of_lt short)
    | cons desc rear =>
      simp only [getElem?_append_length]
      have passes : (isRuntime desc.type = true →
          SameType desc (runtimeAttributes (attributes.drop last))) →
          Slots total front (desc :: rear) (runtimeAttributes (attributes.drop last))
            (splitEntries total attributes fuel last ⟨front ++ desc :: rear, front.length + 1⟩) := by
        intro uncut
        have length : (front ++ [desc]).length = front.length + 1 := length_append
        rw [length_cons] at enough
        rw [append_cons] at room ⊢
        rw [← length]
        exact (ih sorted.cons.2.2 attrsSorted (pending.tail sorted) room (by omega)).pass uncut
      cases isRun : isRuntime desc.type with
      | false =>
        apply passes
        rw [isRun]
        intro clash
        cases clash
      | true =>
        rw [if_pos rfl]
        have finds : Finds desc 0 (runtimeAttributes (attributes.drop last))
            (findAttribute desc false 0 (runtimeAttributes (attributes.drop last))) := by
          apply findAttribute_finds sorted.cons.1 attrsSorted runtimeAttributes_runtime
            (pending.placed sorted)
          intro clash
          cases clash
        cases found : findAttribute desc false last (attributes.drop last) with
        | none =>
          rw [findAttribute_none found] at finds
          exact passes fun _ => finds
        | some hit =>
          obtain ⟨index, attr⟩ := hit
          obtain ⟨passed, behind, table, index_eq, runtime, differs, same⟩ :=
            findAttribute_some found
          rw [same] at finds
          obtain ⟨skipped, later, parts, length, inside, sameType⟩ := finds
          -- The search goes on behind the entry of the table, and so does its filter.
          have rest : runtimeAttributes (attributes.drop (index + 1)) = later := by
            have tail : attributes.drop (index + 1) = behind := by
              rw [index_eq, add_assoc, ← drop_drop, table, append_cons]
              exact drop_left' (by rw [length_append, length_singleton])
            have filtered : runtimeAttributes (attributes.drop last) =
                runtimeAttributes passed ++ attr :: runtimeAttributes behind := by
              rw [table, runtimeAttributes, filter_append, ← runtimeAttributes,
                ← runtimeAttributes, runtimeAttributes_cons, if_pos runtime]
            have equal := append_inj (filtered.symm.trans parts) (by omega)
            rw [tail, (List.cons.inj equal.2).2]
          have fewer : (attributes.drop (index + 1)).length < (attributes.drop last).length := by
            have inTable : passed.length < (attributes.drop last).length := by
              rw [table, length_append, length_cons]
              omega
            rw [length_drop] at inTable ⊢
            rw [length_drop]
            omega
          rw [parts] at attrsSorted pending ⊢
          have laterSorted := attrsSorted.append.2.cons.2.2
          rw [length_cons] at enough
          apply Slots.split sorted isRun attrsSorted runtime inside differs sameType room
          · intro next ends shape bound
            obtain ⟨currentSorted, following⟩ :=
              marked_follows sorted attrsSorted pending inside ends
            rw [shape] at bound ⊢
            rw [← rest] at following laterSorted ⊢
            exact ih currentSorted laterSorted following bound (by rw [length_cons]; omega)
          · intro next ends shape bound
            obtain ⟨currentSorted, following⟩ :=
              behind_follows sorted attrsSorted pending inside ends
            rw [shape] at bound ⊢
            rw [← rest] at following laterSorted ⊢
            exact ih currentSorted laterSorted following bound (by rw [length_cons]; omega)

end Run

/-- A split never runs out of the slots reserved for it, if and only if the cuts of the map
are no more than the runtime attributes of the table. -/
theorem ocSplitMemoryMapByAttributes_slots {memoryMap attributes : List MemoryDescriptor}
    {memoryMapSize descriptorSize : Nat} (positive : 0 < descriptorSize)
    (sorted : SortedDisjoint memoryMap) (attrsSorted : SortedDisjoint (runtimeAttributes attributes))
    (contained : ∀ attr ∈ attributes, isRuntime attr.type = true →
      ∃ desc ∈ memoryMap, isRuntime desc.type ∧ Contains desc attr)
    (sized : memoryMapSize / descriptorSize = memoryMap.length) :
    ∃ fuel status size final,
      ocSplitMemoryMapByAttributes fuel (some attributes)
          (memoryMapSize + ocCountSplitDescriptors (some attributes) * descriptorSize)
          memoryMapSize memoryMap descriptorSize = some (status, size, final) ∧
        (status ≠ .outOfResources ↔
          cutCount memoryMap attributes ≤ ocCountSplitDescriptors (some attributes)) := by
  have total : (memoryMapSize + ocCountSplitDescriptors (some attributes) * descriptorSize) /
      descriptorSize = memoryMap.length + ocCountSplitDescriptors (some attributes) := by
    rw [Nat.add_mul_div_right _ _ positive, sized]
  have pending : Pending memoryMap (runtimeAttributes (attributes.drop 0)) := by
    intro attr member
    obtain ⟨listed, runtime⟩ := mem_filter.mp member
    exact .inl (contained attr listed runtime)
  have room : ([] ++ memoryMap).length ≤
      memoryMap.length + ocCountSplitDescriptors (some attributes) := Nat.le_add_right _ _
  obtain ⟨status, final, ran, fails⟩ : Slots _ _ _ (runtimeAttributes (attributes.drop 0)) _ :=
    splitEntries_slots sorted attrsSorted pending room (Nat.lt_succ_self _)
  refine ⟨memoryMap.length + attributes.length + 1, status, final.length * descriptorSize, final, ?_, ?_⟩
  · rw [ocSplitMemoryMapByAttributes]
    simp only [total, sized, take_length]
    exact congrArg (Option.map _) ran
  · rw [Ne, fails, drop_zero, cutCount_runtimeAttributes, nil_append]
    omega

/-- Two attributes of one page each, at either end of a descriptor of nine pages. -/
theorem ocSplitMemoryMapByAttributes_slots_nine_pages :
    ∃ fuel status size final,
      ocSplitMemoryMapByAttributes fuel (some [⟨6, 0x1000, 1, 0x4000⟩, ⟨6, 0x9000, 1, 0x4000⟩])
          (48 + ocCountSplitDescriptors (some [⟨6, 0x1000, 1, 0x4000⟩, ⟨6, 0x9000, 1, 0x4000⟩]) * 48)
          48 [⟨5, 0x1000, 9, 8⟩] 48 = some (status, size, final) ∧
        (status ≠ .outOfResources ↔
          cutCount [⟨5, 0x1000, 9, 8⟩] [⟨6, 0x1000, 1, 0x4000⟩, ⟨6, 0x9000, 1, 0x4000⟩] ≤
            ocCountSplitDescriptors (some [⟨6, 0x1000, 1, 0x4000⟩, ⟨6, 0x9000, 1, 0x4000⟩])) := by
  apply ocSplitMemoryMapByAttributes_slots
  · decide
  · refine ⟨?_, by decide⟩
    simp only [mem_singleton, forall_eq]
    exact ⟨by decide, by decide, by decide⟩
  · refine ⟨?_, by decide⟩
    intro attr member
    have listed := (mem_filter.mp member).1
    simp only [mem_cons, not_mem_nil, or_false] at listed
    rcases listed with rfl | rfl
    · exact ⟨by decide, by decide, by decide⟩
    · exact ⟨by decide, by decide, by decide⟩
  · simp only [mem_cons, not_mem_nil, or_false, forall_eq_or_imp, forall_eq]
    exact ⟨fun _ => ⟨_, rfl, by decide, by decide, by decide⟩,
      fun _ => ⟨_, rfl, by decide, by decide, by decide⟩⟩
  · decide

/-- One attribute in the middle of its descriptor inserts two descriptors, and one is reserved. -/
theorem ocSplitMemoryMapByAttributes_short_of_slots :
    ocSplitMemoryMapByAttributes 9 (some [⟨6, 0x3000, 1, 0x4000⟩])
        (48 + ocCountSplitDescriptors (some [⟨6, 0x3000, 1, 0x4000⟩]) * 48) 48
        [⟨5, 0x1000, 9, 8⟩] 48 =
      some (.outOfResources, 96, [⟨5, 0x1000, 2, 8⟩, ⟨5, 0x3000, 7, 8⟩]) ∧
    Contains ⟨5, 0x1000, 9, 8⟩ ⟨6, 0x3000, 1, 0x4000⟩ :=
  ⟨by decide, by decide, by decide⟩

end OpenCore.MemoryMapSlots
