import OpenCore.MemoryMapPages

/-!
One split of a memory map entry by an attribute within it: the entry becomes what lies
before the attribute, the pages of the attribute with their type, and what lies behind.
A lack of slots may leave only the first cut done.
-/

namespace OpenCore.MemoryMapSplit

open Base MemoryAttributes MemoryMapPages List

section Arithmetic

variable {desc attr : MemoryDescriptor}

theorem lastDescriptorAddr_of_valid (valid : Valid desc) :
    lastDescriptorAddr desc = ending desc - 1 := by
  have positive := valid.positive
  have bounded := valid.bounded
  have ends : ending desc = desc.physicalStart + desc.numberOfPages * 4096 := rfl
  simp only [lastDescriptorAddr, wrapSub, efiPagesToSize, efiPageSize_val, u64_val] at *
  omega

theorem areaWithinDescriptor_iff (validDesc : Valid desc) (validAttr : Valid attr) :
    areaWithinDescriptor desc attr.physicalStart (efiPagesToSize attr.numberOfPages) ↔
      Contains desc attr := by
  have last : (attr.physicalStart + wrapSub u64 (efiPagesToSize attr.numberOfPages) 1) % u64 =
      ending attr - 1 := lastDescriptorAddr_of_valid validAttr
  rw [areaWithinDescriptor, last, lastDescriptorAddr_of_valid validDesc, Bool.and_eq_true,
    decide_eq_true_eq, decide_eq_true_eq, Contains]
  have descPositive := validDesc.positive
  have attrPositive := validAttr.positive
  have descEnds : ending desc = desc.physicalStart + desc.numberOfPages * 4096 := rfl
  have attrEnds : ending attr = attr.physicalStart + attr.numberOfPages * 4096 := rfl
  omega

end Arithmetic

section Split
variable {front rear : List MemoryDescriptor} {desc attr : MemoryDescriptor} {total : Nat}
variable {change : MemoryDescriptor → MemoryDescriptor}

theorem copyUp_append : copyUp (front ++ desc :: rear) front.length = front ++ desc :: desc :: rear := by
  have first : (front ++ desc :: rear).take (front.length + 1) = front ++ [desc] := by
    have length : (front ++ [desc]).length = front.length + 1 := length_append
    rw [append_cons, take_left' length]
  rw [copyUp, drop_left, first, ← append_cons]

theorem modify_append :
    (front ++ desc :: rear).modify front.length change = front ++ change desc :: rear := by
  induction front with
  | nil => rfl
  | cons first front ih => exact congrArg (first :: ·) ih

theorem modify_append_succ {next : MemoryDescriptor} :
    (front ++ desc :: next :: rear).modify (front.length + 1) change =
      front ++ desc :: change next :: rear := by
  rw [append_cons, ← length_singleton (a := desc), ← length_append, modify_append, ← append_cons]

def before (desc attr : MemoryDescriptor) : List MemoryDescriptor :=
  if desc.physicalStart < attr.physicalStart then
    [{ desc with numberOfPages := (attr.physicalStart - desc.physicalStart) / efiPageSize }]
  else []

def rest (desc attr : MemoryDescriptor) : MemoryDescriptor :=
  { desc with
    physicalStart := attr.physicalStart
    numberOfPages := (ending desc - attr.physicalStart) / efiPageSize }

def marked (desc attr : MemoryDescriptor) : MemoryDescriptor :=
  { desc with
    type := ocRealMemoryType attr
    physicalStart := attr.physicalStart
    numberOfPages := attr.numberOfPages }

def behind (desc attr : MemoryDescriptor) : MemoryDescriptor :=
  { desc with
    physicalStart := ending attr
    numberOfPages := (ending desc - ending attr) / efiPageSize }

inductive SplitResult (total : Nat) (front rear : List MemoryDescriptor)
    (desc attr : MemoryDescriptor) : Except Position Position → Prop where
  | refused (stopped : Position) (unchanged : stopped.memoryMap = front ++ desc :: rear) :
      SplitResult total front rear desc attr (.error stopped)
  | halved (stopped : Position)
      (halves : stopped.memoryMap = front ++ before desc attr ++ rest desc attr :: rear)
      (room : stopped.memoryMap.length = total) :
      SplitResult total front rear desc attr (.error stopped)
  | exact (next : Position) (ends : ending attr = ending desc)
      (parts : next.memoryMap = front ++ before desc attr ++ marked desc attr :: rear)
      (index : next.index = (front ++ before desc attr).length)
      (room : next.memoryMap.length ≤ total) : SplitResult total front rear desc attr (.ok next)
  | parted (next : Position) (ends : ending attr < ending desc)
      (parts : next.memoryMap =
        front ++ before desc attr ++ marked desc attr :: behind desc attr :: rear)
      (index : next.index = (front ++ before desc attr ++ [marked desc attr]).length)
      (room : next.memoryMap.length ≤ total) : SplitResult total front rear desc attr (.ok next)

theorem efiSizeToPages_of_aligned {size : Nat} (aligned : size % efiPageSize = 0) :
    efiSizeToPages size = size / efiPageSize := by
  rw [efiSizeToPages, if_neg (fun unaligned => unaligned aligned), Nat.add_zero]

theorem splitBefore_spec (validDesc : Valid desc) (validAttr : Valid attr)
    (inside : Contains desc attr) (room : (front ++ desc :: rear).length ≤ total) :
    (splitBefore total attr desc ⟨front ++ desc :: rear, front.length⟩ =
        .error ⟨front ++ desc :: rear, front.length⟩) ∨
      ∃ middle, splitBefore total attr desc ⟨front ++ desc :: rear, front.length⟩ = .ok middle ∧
        middle.memoryMap = front ++ before desc attr ++ rest desc attr :: rear ∧
        middle.index = (front ++ before desc attr).length ∧ middle.memoryMap.length ≤ total := by
  have descAligned := validDesc.aligned
  have attrAligned := validAttr.aligned
  have bounded := validDesc.bounded
  have descEnds : ending desc = desc.physicalStart + desc.numberOfPages * 4096 := rfl
  have attrEnds : ending attr = attr.physicalStart + attr.numberOfPages * 4096 := rfl
  have positive := validAttr.positive
  obtain ⟨starts, ends⟩ := inside
  rw [efiPageSize_val] at descAligned attrAligned
  rw [u64_val] at bounded
  rw [splitBefore]
  split
  · rename_i later
    split
    · exact .inl rfl
    · rename_i free
      right
      have pieces : before desc attr ++ rest desc attr :: rear =
          { desc with numberOfPages := efiSizeToPages (attr.physicalStart - desc.physicalStart) } ::
            { desc with
              physicalStart := attr.physicalStart
              numberOfPages := wrapSub u64 desc.numberOfPages
                (efiSizeToPages (attr.physicalStart - desc.physicalStart)) } :: rear := by
        have left : wrapSub u64 desc.numberOfPages
            (efiSizeToPages (attr.physicalStart - desc.physicalStart)) =
              (ending desc - attr.physicalStart) / efiPageSize := by
          rw [efiSizeToPages_of_aligned (by rw [efiPageSize_val]; omega)]
          rw [wrapSub_of_le (by rw [efiPageSize_val]; omega) (by rw [u64_val]; omega)]
          rw [efiPageSize_val]
          omega
        rw [left, before, if_pos later, rest,
          efiSizeToPages_of_aligned (by rw [efiPageSize_val]; omega)]
        rfl
      have parts : front ++ before desc attr ++ rest desc attr :: rear = _ :=
        (append_assoc _ _ _).trans (congrArg (front ++ ·) pieces)
      refine ⟨_, rfl, ?_, ?_, ?_⟩
      · show List.modify _ _ _ = _
        rw [copyUp_append, modify_append, modify_append_succ, parts]
      · rw [length_append, before, if_pos later]
        rfl
      · show (List.modify _ _ _).length ≤ total
        rw [copyUp_append, length_modify, length_modify]
        simp only [length_append, length_cons] at *
        omega
  · rename_i notLater
    have same : attr.physicalStart = desc.physicalStart := by omega
    have whole : rest desc attr = desc := by
      have pages : (ending desc - attr.physicalStart) / efiPageSize = desc.numberOfPages := by
        rw [efiPageSize_val]
        omega
      rw [rest, pages, same]
    have nothing : before desc attr = [] := if_neg notLater
    right
    refine ⟨_, rfl, ?_, ?_, room⟩
    · rw [nothing, whole, append_nil]
    · rw [nothing, append_nil]

theorem splitBehind_spec {middle : Position} (validDesc : Valid desc) (validAttr : Valid attr)
    (inside : Contains desc attr)
    (parts : middle.memoryMap = front ++ before desc attr ++ rest desc attr :: rear)
    (index : middle.index = (front ++ before desc attr).length)
    (room : middle.memoryMap.length ≤ total) :
    (splitBehind total attr (rest desc attr) middle = .error middle ∧
        middle.memoryMap.length = total) ∨
      ∃ next, splitBehind total attr (rest desc attr) middle = .ok next ∧
        SplitResult total front rear desc attr (.ok next) := by
  have descAligned := validDesc.aligned
  have attrAligned := validAttr.aligned
  have bounded := validDesc.bounded
  have descEnds : ending desc = desc.physicalStart + desc.numberOfPages * 4096 := rfl
  have attrEnds : ending attr = attr.physicalStart + attr.numberOfPages * 4096 := rfl
  obtain ⟨starts, ends⟩ := inside
  have left : (rest desc attr).numberOfPages = (ending desc - attr.physicalStart) / 4096 := rfl
  rw [efiPageSize_val] at descAligned attrAligned
  rw [u64_val] at bounded
  obtain ⟨memoryMap, position⟩ := middle
  dsimp only at parts index room
  subst parts index
  rw [splitBehind]
  split
  · rename_i same
    right
    refine ⟨_, rfl, .exact _ (by omega) ?_ rfl ?_⟩
    · show List.modify _ _ _ = _
      rw [modify_append]
      congr 2
      rw [same]
      rfl
    · show (List.modify _ _ _).length ≤ total
      rw [length_modify]
      exact room
  · rename_i longer
    split
    · rename_i full
      exact .inl ⟨rfl, full⟩
    · rename_i free
      right
      refine ⟨_, rfl, .parted _ (by omega) ?_ ?_ ?_⟩
      · show List.modify _ _ _ = _
        have start : ((rest desc attr).physicalStart + efiPagesToSize attr.numberOfPages) % u64 =
            ending attr := by
          have size : efiPagesToSize attr.numberOfPages = attr.numberOfPages * 4096 := by
            rw [efiPagesToSize, efiPageSize_val, u64_val]
            omega
          have begins : (rest desc attr).physicalStart = attr.physicalStart := rfl
          rw [size, begins, u64_val]
          omega
        have pages : wrapSub u64 (rest desc attr).numberOfPages attr.numberOfPages =
            (ending desc - ending attr) / efiPageSize := by
          rw [wrapSub_of_le (by omega) (by rw [u64_val]; omega), left, efiPageSize_val]
          omega
        rw [copyUp_append, modify_append, modify_append_succ, start, pages]
        rfl
      · simp only [length_append, length_singleton]
      · show (List.modify _ _ _).length ≤ total
        rw [copyUp_append, length_modify, length_modify]
        simp only [length_append, length_cons] at *
        omega

theorem getElem?_append_length : (front ++ desc :: rear)[front.length]? = some desc := by
  rw [getElem?_append_right (le_refl _), Nat.sub_self, getElem?_cons_zero]

theorem ocSplitMemoryEntryByAttribute_spec (validDesc : Valid desc) (validAttr : Valid attr)
    (inside : Contains desc attr) (room : (front ++ desc :: rear).length ≤ total) :
    SplitResult total front rear desc attr
      (ocSplitMemoryEntryByAttribute total attr ⟨front ++ desc :: rear, front.length⟩) := by
  rw [ocSplitMemoryEntryByAttribute]
  simp only [getElem?_append_length]
  rcases splitBefore_spec validDesc validAttr inside room with
    refused | ⟨middle, split, parts, index, left⟩
  · rw [refused]
    exact .refused _ rfl
  · rw [split]
    have entry : middle.memoryMap[middle.index]? = some (rest desc attr) := by
      rw [parts, index, getElem?_append_length]
    simp only [bind, Except.bind, entry]
    rcases splitBehind_spec validDesc validAttr inside parts index left with
      ⟨refused, full⟩ | ⟨next, parted, result⟩
    · rw [refused]
      exact .halved _ parts full
    · rw [parted]
      exact result

end Split

section Parts
variable {desc attr : MemoryDescriptor}

theorem mark_partitions (valid : Valid desc) (start : desc.physicalStart = attr.physicalStart)
    (pages : desc.numberOfPages = attr.numberOfPages) :
    Partitions [desc] [marked desc attr] ∧ Retyped [attr] [desc] [marked desc attr] := by
  have same : marked desc attr = { desc with type := ocRealMemoryType attr } := by
    rw [marked, ← start, ← pages]
  have covers : ∀ page, Covers (marked desc attr) page ↔ Covers desc page := by
    intro page
    rw [same]
    rfl
  have attrCovers : ∀ page, Covers attr page ↔ Covers desc page := by
    intro page
    rw [Covers, Covers, ending, ending, start, pages]
  constructor
  · refine ⟨⟨?_, pairwise_singleton _ _⟩, ?_, ?_⟩
    · intro piece member
      rw [mem_singleton.mp member, same]
      exact ⟨valid.aligned, valid.positive, valid.bounded⟩
    · intro piece member
      rw [mem_singleton.mp member, same]
      exact ⟨desc, mem_singleton.mpr rfl, le_refl _, le_refl _⟩
    · intro page
      rw [kindAt_singleton, kindAt_singleton]
      simp only [covers]
      split <;> rfl
  · constructor
    · intro page other member attrCovered type flags found
      rw [mem_singleton.mp member] at attrCovered ⊢
      have covered := (attrCovers page).mp attrCovered
      rw [kindAt_singleton, if_pos covered] at found
      rw [kindAt_singleton, if_pos ((covers page).mpr covered), same]
      cases found
      rfl
    · intro page uncovered
      have outside := uncovered attr (mem_singleton.mpr rfl)
      rw [attrCovers] at outside
      rw [kindAt_singleton, kindAt_singleton, if_neg outside, if_neg (mt (covers page).mp outside)]

theorem rest_eq_of_same_start (start : desc.physicalStart = attr.physicalStart) :
    rest desc attr = desc := by
  have pages : (ending desc - attr.physicalStart) / efiPageSize = desc.numberOfPages := by
    rw [← start, ending, Nat.add_sub_cancel_left, Nat.mul_div_cancel _ (by decide)]
  rw [rest, pages, ← start]

theorem before_apart :
    ∀ piece ∈ before desc attr, ending piece ≤ attr.physicalStart := by
  intro piece member
  rw [before] at member
  split at member
  · rename_i later
    rw [mem_singleton.mp member, ending]
    have division := Nat.div_mul_le_self (attr.physicalStart - desc.physicalStart) efiPageSize
    dsimp only
    omega
  · cases member

variable (validDesc : Valid desc) (validAttr : Valid attr) (inside : Contains desc attr)
include validDesc validAttr inside

theorem before_rest_partitions :
    Partitions [desc] (before desc attr ++ [rest desc attr]) ∧
      ∀ page, kindAt (before desc attr ++ [rest desc attr]) page = kindAt [desc] page := by
  have descAligned := validDesc.aligned
  have attrAligned := validAttr.aligned
  have positive := validAttr.positive
  have descEnds : ending desc = desc.physicalStart + desc.numberOfPages * 4096 := rfl
  have attrEnds : ending attr = attr.physicalStart + attr.numberOfPages * 4096 := rfl
  obtain ⟨starts, ends⟩ := inside
  rw [efiPageSize_val] at descAligned attrAligned
  by_cases later : desc.physicalStart < attr.physicalStart
  · have cut : rest desc attr =
        dropPages desc ((attr.physicalStart - desc.physicalStart) / efiPageSize) := by
      rw [rest, dropPages]
      congr 1
      · rw [efiPageSize_val]
        omega
      · rw [efiPageSize_val]
        omega
    rw [before, if_pos later, cut]
    apply cut_partitions validDesc
    · rw [efiPageSize_val]
      omega
    · rw [efiPageSize_val]
      omega
  · rw [before, if_neg later, rest_eq_of_same_start (by omega), nil_append]
    exact ⟨Partitions.refl ⟨by simpa using validDesc, pairwise_singleton _ _⟩, fun _ => rfl⟩

theorem partitions_of_rest {parts : List MemoryDescriptor}
    (partitions : Partitions [rest desc attr] parts) (retyped : Retyped [attr] [rest desc attr] parts) :
    Partitions [desc] (before desc attr ++ parts) ∧
      Retyped [attr] [desc] (before desc attr ++ parts) := by
  obtain ⟨cut, kinds⟩ := before_rest_partitions validDesc validAttr inside
  have front : SortedDisjoint (before desc attr) :=
    ⟨fun piece member => cut.sorted.valid piece (mem_append_left _ member),
      (pairwise_append.mp cut.sorted.sorted).1⟩
  constructor
  · exact cut.trans ((Partitions.refl front).append cut.sorted partitions)
  · have kept : Retyped [attr] (before desc attr) (before desc attr) := by
      apply Retyped.refl_of_apart
      intro other member piece pieceMember
      rw [mem_singleton.mp member]
      exact .inl (before_apart piece pieceMember)
    exact (kept.append retyped fun _ => rfl).congr kinds

theorem exact_partitions (ends : ending attr = ending desc) :
    Partitions [desc] (before desc attr ++ [marked desc attr]) ∧
      Retyped [attr] [desc] (before desc attr ++ [marked desc attr]) := by
  have cut := (before_rest_partitions validDesc validAttr inside).1
  have valid : Valid (rest desc attr) := cut.sorted.valid _ (by simp)
  have pages : (rest desc attr).numberOfPages = attr.numberOfPages := by
    show (ending desc - attr.physicalStart) / efiPageSize = attr.numberOfPages
    rw [← ends, ending, Nat.add_sub_cancel_left, Nat.mul_div_cancel _ (by decide)]
  have marks : Partitions [rest desc attr] [marked (rest desc attr) attr] ∧ _ :=
    mark_partitions valid rfl pages
  exact partitions_of_rest validDesc validAttr inside marks.1 marks.2

theorem parted_partitions (ends : ending attr < ending desc) :
    Partitions [desc] (before desc attr ++ ([marked desc attr] ++ [behind desc attr])) ∧
      Retyped [attr] [desc] (before desc attr ++ ([marked desc attr] ++ [behind desc attr])) := by
  have attrEnds : ending attr = attr.physicalStart + attr.numberOfPages * 4096 := rfl
  have restPages : (rest desc attr).numberOfPages = (ending desc - attr.physicalStart) / 4096 := rfl
  have descEnds : ending desc = desc.physicalStart + desc.numberOfPages * 4096 := rfl
  have descAligned := validDesc.aligned
  have attrAligned := validAttr.aligned
  rw [efiPageSize_val] at descAligned attrAligned
  have starts := inside.1
  have first := (before_rest_partitions validDesc validAttr inside).1
  have valid : Valid (rest desc attr) := first.sorted.valid _ (by simp)
  have shorter : attr.numberOfPages < (rest desc attr).numberOfPages := by omega
  obtain ⟨cut, kinds⟩ := cut_partitions valid validAttr.positive shorter
  have tail : dropPages (rest desc attr) attr.numberOfPages = behind desc attr := by
    rw [dropPages, behind]
    congr 1
    rw [restPages, efiPageSize_val]
    omega
  rw [tail] at cut kinds
  have valid : Valid { rest desc attr with numberOfPages := attr.numberOfPages } :=
    cut.sorted.valid _ (by simp)
  obtain ⟨marks, retypes⟩ : Partitions [{ rest desc attr with numberOfPages := attr.numberOfPages }]
    [marked desc attr] ∧ _ := mark_partitions valid rfl rfl
  have behindSorted : SortedDisjoint [behind desc attr] :=
    ⟨by simpa using cut.sorted.valid (behind desc attr) (by simp), pairwise_singleton _ _⟩
  have behindKept : Retyped [attr] [behind desc attr] [behind desc attr] := by
    apply Retyped.refl_of_apart
    intro other member piece pieceMember
    rw [mem_singleton.mp member, mem_singleton.mp pieceMember]
    exact .inr (le_refl _)
  refine partitions_of_rest validDesc validAttr inside ?_ ?_
  · exact cut.trans (marks.append cut.sorted (Partitions.refl behindSorted))
  · exact (retypes.append behindKept marks.same).congr kinds

omit validDesc validAttr inside in
theorem ending_marked : ending (marked desc attr) = ending attr := rfl

omit inside in
theorem ending_behind
    (ends : ending attr < ending desc) : ending (behind desc attr) = ending desc := by
  have attrEnds : ending attr = attr.physicalStart + attr.numberOfPages * 4096 := rfl
  have descEnds : ending desc = desc.physicalStart + desc.numberOfPages * 4096 := rfl
  have behindEnds : ending (behind desc attr) =
      ending attr + (ending desc - ending attr) / 4096 * 4096 := rfl
  have descAligned := validDesc.aligned
  have attrAligned := validAttr.aligned
  rw [efiPageSize_val] at descAligned attrAligned
  omega

end Parts

end OpenCore.MemoryMapSplit
