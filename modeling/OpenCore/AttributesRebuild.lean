import OpenCore.AttributesExpand
import OpenCore.ExchangeSort
import OpenCore.MemoryMapShrink

/-!
`OcRebuildAttributes`: the memory attributes table is sorted, loses the entries that repeat each
other and, where there were any, gets entries for the runtime memory that it lacks. At last the
entry with the address of a driver becomes executable.
-/

namespace OpenCore.AttributesRebuild

open Base MemoryAttributes MemoryMapPages MemoryMapShrink ExchangeSort AttributesExpand List

section Source

def ocSortMemoryMap (memoryMap : List MemoryDescriptor) : List MemoryDescriptor :=
  exchangeSort (·.physicalStart) memoryMap

def updateDescriptor (type setAttributes dropAttributes : Nat) (desc : MemoryDescriptor) :
    MemoryDescriptor :=
  { desc with
    type := type
    attributeFlags := (desc.attributeFlags ||| setAttributes) &&& (dropAttributes ^^^ (u64 - 1)) }

def ocUpdateDescriptors (address type setAttributes dropAttributes : Nat) :
    List MemoryDescriptor → EfiStatus × List MemoryDescriptor
  | [] => (.notFound, [])
  | desc :: rest =>
    if areaWithinDescriptor desc address 1 then
      (.success, updateDescriptor type setAttributes dropAttributes desc :: rest)
    else
      let (status, updated) := ocUpdateDescriptors address type setAttributes dropAttributes rest
      (status, desc :: updated)

/-- The sorted table without duplicates, and with the missing entries if it had any. The memory
map is what `GetMemoryMap` returns, or its error. -/
def rebuildEntries (fuel : Nat) (getMemoryMap : Except EfiStatus (List MemoryDescriptor))
    (table : List MemoryDescriptor) : Option (EfiStatus × List MemoryDescriptor) :=
  (ocDeduplicateDescriptors (ocSortMemoryMap table)).bind fun outcome =>
    let entries := outcome.memoryMap.take outcome.size
    if outcome.status = .success then
      match getMemoryMap with
      | .ok memoryMap =>
        -- What the expansion comes to is not looked at.
        (ocExpandAttributesByMap fuel table.length (ocSortMemoryMap memoryMap) entries).map
          fun (_, expanded) => (.success, expanded)
      | .error status => some (status, entries)
    else some (outcome.status, entries)

def ocRebuildAttributes (fuel address : Nat)
    (getMemoryMap : Except EfiStatus (List MemoryDescriptor)) :
    Option (List MemoryDescriptor) → Option (EfiStatus × List MemoryDescriptor)
  | none => some (.unsupported, [])
  | some [] => some (.unsupported, [])
  | some table =>
    (rebuildEntries fuel getMemoryMap table).map fun (status, entries) =>
      if address ≠ 0 then
        ocUpdateDescriptors address efiRuntimeServicesCode efiMemoryRo efiMemoryXp entries
      else (status, entries)

end Source

section Sorted
variable {table entries : List MemoryDescriptor} {desc attr : MemoryDescriptor}

theorem ocSortMemoryMap_perm (memoryMap : List MemoryDescriptor) :
    (ocSortMemoryMap memoryMap).Perm memoryMap := exchangeSort_perm memoryMap

theorem isDuplicate_iff : isDuplicate desc attr = true ↔
    attr.physicalStart = desc.physicalStart ∧ attr.numberOfPages = desc.numberOfPages := by
  rw [isDuplicate, Bool.and_eq_true, beq_iff_eq, beq_iff_eq]

def Separate (left right : MemoryDescriptor) : Prop :=
  ending left ≤ right.physicalStart ∨ ending right ≤ left.physicalStart

theorem Separate.symm (separate : Separate desc attr) : Separate attr desc := Or.symm separate

theorem Separate.before (separate : Separate desc attr) (positive : 0 < attr.numberOfPages)
    (starts : desc.physicalStart ≤ attr.physicalStart) : ending desc ≤ attr.physicalStart := by
  rcases separate with before | behind
  · exact before
  · have attrEnds : ending attr = attr.physicalStart + attr.numberOfPages * 4096 := rfl
    omega

theorem exists_copy (first : MemoryDescriptor) (rest : List MemoryDescriptor) :
    ∀ desc ∈ first :: rest, ∃ copy ∈ copies (first :: rest), isDuplicate copy desc = true := by
  unfold copies
  rw [destutter_cons']
  have alike : ∀ desc, isDuplicate desc desc = true := fun _ => isDuplicate_iff.mpr ⟨rfl, rfl⟩
  induction rest generalizing first with
  | nil =>
    intro desc member
    rw [mem_singleton.mp member]
    exact ⟨first, mem_cons_self, alike first⟩
  | cons next rest ih =>
    intro desc member
    by_cases same : isDuplicate first next = true
    · rw [destutter'_cons_neg _ (not_not_intro same)]
      rcases mem_cons.mp member with rfl | behind
      · exact ih desc desc mem_cons_self
      · rcases mem_cons.mp behind with rfl | further
        · obtain ⟨copy, listed, copied⟩ := ih first first mem_cons_self
          rw [isDuplicate_iff] at copied same
          exact ⟨copy, listed, isDuplicate_iff.mpr ⟨same.1.trans copied.1, same.2.trans copied.2⟩⟩
        · exact ih first desc (mem_cons_of_mem _ further)
    · rw [destutter'_cons_pos _ same]
      rcases mem_cons.mp member with rfl | behind
      · exact ⟨desc, mem_cons_self, alike desc⟩
      · obtain ⟨copy, listed, copied⟩ := ih next desc behind
        exact ⟨copy, mem_cons_of_mem _ listed, copied⟩

theorem isChain_and {chained paired : MemoryDescriptor → MemoryDescriptor → Prop}
    (chain : entries.IsChain chained) (pairs : entries.Pairwise paired) :
    entries.IsChain fun left right => chained left right ∧ paired left right := by
  induction entries with
  | nil => exact isChain_nil
  | cons first rest ih =>
    have later := pairwise_cons.mp pairs
    cases rest with
    | nil => exact isChain_singleton _
    | cons next rest =>
      have links := isChain_cons_cons.mp chain
      exact isChain_cons_cons.mpr
        ⟨⟨links.1, later.1 next mem_cons_self⟩, ih links.2 later.2⟩

theorem mem_of_mem_copies (member : desc ∈ copies entries) : desc ∈ entries :=
  (destutter_sublist _ entries).subset member

/-- A table as firmware has to provide it: runtime entries, of which two have the same pages or
none in common. -/
structure Table (table : List MemoryDescriptor) : Prop where
  valid : ∀ attr ∈ table, Valid attr
  runtime : ∀ attr ∈ table, isRuntime attr.type = true
  separate : table.Pairwise fun left right => isDuplicate left right = true ∨ Separate left right

theorem Table.copies_sorted (suits : Table table) : SortedDisjoint (copies (ocSortMemoryMap table)) := by
  have perm := ocSortMemoryMap_perm table
  have listed : ∀ attr ∈ copies (ocSortMemoryMap table), attr ∈ table :=
    fun attr member => perm.mem_iff.mp (mem_of_mem_copies member)
  refine ⟨fun attr member => suits.valid attr (listed attr member), ?_⟩
  have symmetric : ∀ {left right : MemoryDescriptor},
      isDuplicate left right = true ∨ Separate left right →
        isDuplicate right left = true ∨ Separate right left := by
    intro left right either
    refine either.imp (fun same => ?_) Separate.symm
    rw [isDuplicate_iff] at same ⊢
    exact ⟨same.1.symm, same.2.symm⟩
  have sorted : (ocSortMemoryMap table).Pairwise fun left right =>
      left.physicalStart ≤ right.physicalStart := exchangeSort_sorted table
  have both : (copies (ocSortMemoryMap table)).Pairwise fun left right =>
      left.physicalStart ≤ right.physicalStart ∧
        (isDuplicate left right = true ∨ Separate left right) :=
    (sorted.and (suits.separate.perm perm.symm symmetric)).sublist (destutter_sublist _ _)
  -- Neighbours are no duplicates, so each ends before the next one starts.
  have chain : (copies (ocSortMemoryMap table)).IsChain fun earlier later =>
      ending earlier ≤ later.physicalStart := by
    have different : (copies (ocSortMemoryMap table)).IsChain fun prev desc =>
        ¬isDuplicate prev desc = true := isChain_destutter _ _
    refine (isChain_and different both).imp_of_mem_imp ?_
    intro earlier later _ member pair
    obtain ⟨notSame, starts, either⟩ := pair
    exact (either.resolve_left notSame).before (suits.valid later (listed later member)).positive starts
  have transitive : IsTrans MemoryDescriptor fun earlier later => ending earlier ≤ later.physicalStart :=
    ⟨fun _ middle _ first second => (first.trans (Nat.le_add_right _ _)).trans second⟩
  exact isChain_iff_pairwise.mp chain

end Sorted

section Update
variable {entries : List MemoryDescriptor} {desc entry : MemoryDescriptor} {address page : Nat}

theorem areaWithinDescriptor_one (valid : Valid desc) (bounded : address < u64) :
    areaWithinDescriptor desc address 1 = true ↔
      desc.physicalStart ≤ address ∧ address < ending desc := by
  have last : (address + wrapSub u64 1 1) % u64 = address := by
    rw [show wrapSub u64 1 1 = 0 by decide, add_zero, Nat.mod_eq_of_lt bounded]
  rw [areaWithinDescriptor, last, MemoryMapSplit.lastDescriptorAddr_of_valid valid, Bool.and_eq_true,
    decide_eq_true_eq, decide_eq_true_eq]
  have positive := valid.positive
  have ends : ending desc = desc.physicalStart + desc.numberOfPages * 4096 := rfl
  omega

def executable (address : Nat) (entry : MemoryDescriptor) : MemoryDescriptor :=
  if areaWithinDescriptor entry address 1 then
    updateDescriptor efiRuntimeServicesCode efiMemoryRo efiMemoryXp entry
  else entry

theorem ocUpdateDescriptors_eq (sorted : SortedDisjoint entries) (bounded : address < u64) :
    (ocUpdateDescriptors address efiRuntimeServicesCode efiMemoryRo efiMemoryXp entries).2 =
      entries.map (executable address) := by
  induction entries with
  | nil => rfl
  | cons entry rest ih =>
    obtain ⟨valid, apart, sortedRest⟩ := sorted.cons
    rw [ocUpdateDescriptors, map_cons, executable]
    split
    · rename_i here
      have below := ((areaWithinDescriptor_one valid bounded).mp here).2
      have others : rest.map (executable address) = rest := by
        refine (map_congr_left ?_).trans (map_id rest)
        intro other member
        have missed : ¬areaWithinDescriptor other address 1 = true := by
          rw [areaWithinDescriptor_one (sortedRest.valid other member) bounded]
          have above := apart other member
          omega
        exact if_neg missed
      rw [others]
    · exact congrArg (entry :: ·) (ih sortedRest)

def marked (address : Nat) (entry : MemoryDescriptor) : MemoryDescriptor :=
  if address ≠ 0 then executable address entry else entry

theorem marked_range : (marked address entry).physicalStart = entry.physicalStart ∧
    (marked address entry).numberOfPages = entry.numberOfPages := by
  unfold marked executable updateDescriptor
  split
  · split
    · exact ⟨rfl, rfl⟩
    · exact ⟨rfl, rfl⟩
  · exact ⟨rfl, rfl⟩

theorem ending_marked : ending (marked address entry) = ending entry := by
  rw [ending, ending, marked_range.1, marked_range.2]

theorem covers_marked : Covers (marked address entry) page ↔ Covers entry page := by
  rw [Covers, Covers, ending_marked, marked_range.1]

theorem sortedDisjoint_marked (sorted : SortedDisjoint entries) :
    SortedDisjoint (entries.map (marked address)) := by
  constructor
  · intro desc member
    obtain ⟨entry, listed, rfl⟩ := mem_map.mp member
    have valid := sorted.valid entry listed
    refine ⟨?_, ?_, ?_⟩
    · rw [marked_range.1]
      exact valid.aligned
    · rw [marked_range.2]
      exact valid.positive
    · rw [ending_marked]
      exact valid.bounded
  · refine pairwise_map.mpr (sorted.sorted.imp ?_)
    intro earlier later before
    rw [ending_marked, marked_range.1]
    exact before

end Update

section Rebuild
variable {table : List MemoryDescriptor} {address : Nat}
  {getMemoryMap : Except EfiStatus (List MemoryDescriptor)}

/-- A memory map for a table: every entry of the table is in one of the runtime descriptors, which
are separate and end below the last address. -/
structure MapOf (memoryMap table : List MemoryDescriptor) : Prop where
  valid : ∀ desc ∈ runtimeEntries memoryMap, Valid desc
  bounded : ∀ desc ∈ runtimeEntries memoryMap, ending desc < u64
  separate : (runtimeEntries memoryMap).Pairwise Separate
  inside : ∀ attr ∈ table, ∃ desc ∈ runtimeEntries memoryMap, Contains desc attr

theorem runtimeEntries_perm (memoryMap : List MemoryDescriptor) :
    (runtimeEntries (ocSortMemoryMap memoryMap)).Perm (runtimeEntries memoryMap) :=
  (ocSortMemoryMap_perm memoryMap).filter _

theorem MapOf.ahead {memoryMap : List MemoryDescriptor} (suits : Table table)
    (fits : MapOf memoryMap table) :
    Ahead (runtimeEntries (ocSortMemoryMap memoryMap)) (copies (ocSortMemoryMap table)) := by
  have perm := runtimeEntries_perm memoryMap
  refine ⟨?_, ?_, ?_, suits.copies_sorted, ?_⟩
  · exact fun region member => (fits.valid region (perm.mem_iff.mp member)).aligned
  · exact fun region member => fits.bounded region (perm.mem_iff.mp member)
  · have sorted : (ocSortMemoryMap memoryMap).Pairwise fun left right =>
        left.physicalStart ≤ right.physicalStart := exchangeSort_sorted memoryMap
    have apart := fits.separate.perm perm.symm Separate.symm
    refine List.Pairwise.imp_of_mem ?_ ((sorted.filter _).and apart)
    intro earlier later _ member both
    exact both.2.before (fits.valid later (perm.mem_iff.mp member)).positive both.1
  · intro attr member
    obtain ⟨desc, listed, inside⟩ :=
      fits.inside attr ((ocSortMemoryMap_perm table).mem_iff.mp (mem_of_mem_copies member))
    exact ⟨desc, perm.mem_iff.mpr listed, inside⟩

def ranges (table : List MemoryDescriptor) : Finset (Nat × Nat) :=
  (table.map fun attr => (attr.physicalStart, attr.numberOfPages)).toFinset

theorem exists_copy_of_mem {attr : MemoryDescriptor} (member : attr ∈ table) :
    ∃ copy ∈ copies (ocSortMemoryMap table), isDuplicate copy attr = true := by
  have listed := (ocSortMemoryMap_perm table).mem_iff.mpr member
  cases sorted : ocSortMemoryMap table with
  | nil =>
    rw [sorted] at listed
    cases listed
  | cons first rest =>
    rw [sorted] at listed
    exact exists_copy first rest attr listed

theorem Table.copies_length (suits : Table table) :
    (copies (ocSortMemoryMap table)).length = (ranges table).card := by
  have sorted := suits.copies_sorted
  have nodup : ((copies (ocSortMemoryMap table)).map
      fun attr => (attr.physicalStart, attr.numberOfPages)).Nodup := by
    refine pairwise_map.mpr (List.Pairwise.imp_of_mem ?_ sorted.sorted)
    intro earlier later member _ before same
    have starts := congrArg Prod.fst same
    have positive := (sorted.valid earlier member).positive
    have ends : ending earlier = earlier.physicalStart + earlier.numberOfPages * 4096 := rfl
    dsimp only at starts
    omega
  have equal : ((copies (ocSortMemoryMap table)).map
      fun attr => (attr.physicalStart, attr.numberOfPages)).toFinset = ranges table := by
    ext range
    simp only [ranges, mem_toFinset, mem_map]
    constructor
    · rintro ⟨attr, member, rfl⟩
      exact ⟨attr, (ocSortMemoryMap_perm table).mem_iff.mp (mem_of_mem_copies member), rfl⟩
    · rintro ⟨attr, member, rfl⟩
      obtain ⟨copy, listed, copied⟩ := exists_copy_of_mem member
      rw [isDuplicate_iff] at copied
      exact ⟨copy, listed, by rw [copied.1, copied.2]⟩
  rw [← equal, toFinset_card_of_nodup nodup, length_map]

theorem gapCount_copies (memoryMap : List MemoryDescriptor) :
    gapCount (runtimeEntries (ocSortMemoryMap memoryMap)) (copies (ocSortMemoryMap table)) =
      gapCount (runtimeEntries memoryMap) table := by
  rw [gapCount_perm (runtimeEntries_perm memoryMap)]
  refine gapCount_congr fun desc _ => gaps_congr ?_ ?_
  · exact fun attr member =>
      ⟨attr, (ocSortMemoryMap_perm table).mem_iff.mp (mem_of_mem_copies member), rfl, rfl⟩
  · intro attr member
    obtain ⟨copy, listed, copied⟩ := exists_copy_of_mem member
    rw [isDuplicate_iff] at copied
    exact ⟨copy, listed, copied.1.symm, copied.2.symm⟩

structure Expanded (getMemoryMap : Except EfiStatus (List MemoryDescriptor))
    (table entries : List MemoryDescriptor) : Prop where
  sorted : SortedDisjoint entries
  kept : (copies (ocSortMemoryMap table)).Sublist entries
  covers : (ranges table).card < table.length → ∀ memoryMap, getMemoryMap = .ok memoryMap →
    gapCount (runtimeEntries memoryMap) table ≤ table.length - (ranges table).card →
    ∀ desc ∈ runtimeEntries memoryMap, ∀ page, Covers desc page → ∃ entry ∈ entries, Covers entry page

theorem rebuildEntries_expanded (suits : Table table)
    (fits : ∀ memoryMap, getMemoryMap = .ok memoryMap → MapOf memoryMap table)
    (alone : ¬EndsJoined dropDuplicate (ocSortMemoryMap table)) :
    ∃ status entries, rebuildEntries (table.length + 1) getMemoryMap table = some (status, entries) ∧
      Expanded getMemoryMap table entries := by
  obtain ⟨outcome, ran, deduplicated⟩ := ocDeduplicateDescriptors_deduplicated (ocSortMemoryMap table)
  have entries : outcome.memoryMap.take outcome.size = copies (ocSortMemoryMap table) := by
    rw [deduplicated.count alone]
    exact deduplicated.kept
  have success := deduplicated.success
  rw [suits.copies_length, (ocSortMemoryMap_perm table).length_eq] at success
  unfold rebuildEntries
  simp only [ran, Option.bind_some, entries]
  have sorted := suits.copies_sorted
  split
  · rename_i removed
    cases getMemoryMap with
    | error status =>
      refine ⟨status, _, rfl, sorted, List.Sublist.refl _, fun _ memoryMap failed => ?_⟩
      cases failed
    | ok memoryMap =>
      have mapOf := fits memoryMap rfl
      have perm := runtimeEntries_perm memoryMap
      have listed : ∀ attr ∈ copies (ocSortMemoryMap table), attr ∈ table :=
        fun attr member => (ocSortMemoryMap_perm table).mem_iff.mp (mem_of_mem_copies member)
      have fewer := success.mp removed
      have room : (copies (ocSortMemoryMap table)).length ≤ table.length := by
        rw [suits.copies_length]
        exact fewer.le
      obtain ⟨status, expanded, walked, fills, fails⟩ := ocExpandAttributesByMap_filled
        (fun desc member => mapOf.valid desc (perm.mem_iff.mp member)) (mapOf.ahead suits)
        (fun attr member => suits.runtime attr (listed attr member)) room
      dsimp only
      rw [walked]
      refine ⟨.success, expanded, rfl, fills.sorted, fills.kept, ?_⟩
      rintro _ other ⟨rfl⟩ enough desc member page covers
      apply fills.covers _ desc (perm.mem_iff.mpr member) page covers
      rw [Ne, fails, gapCount_copies, suits.copies_length]
      omega
  · rename_i nothing
    refine ⟨_, _, rfl, sorted, List.Sublist.refl _, fun fewer => ?_⟩
    exact absurd (success.mpr fewer) nothing

structure Rebuilt (address : Nat) (getMemoryMap : Except EfiStatus (List MemoryDescriptor))
    (table final : List MemoryDescriptor) : Prop where
  sorted : SortedDisjoint final
  kept : ∀ attr ∈ table, ∃ old ∈ table, isDuplicate old attr = true ∧ marked address old ∈ final
  only : ∀ entry ∈ final, (∃ old ∈ table, entry = marked address old) ∨
    ∀ attr ∈ table, ∀ page, Covers attr page → ¬Covers entry page
  covers : (ranges table).card < table.length → ∀ memoryMap, getMemoryMap = .ok memoryMap →
    gapCount (runtimeEntries memoryMap) table ≤ table.length - (ranges table).card →
    ∀ desc ∈ memoryMap, isRuntime desc.type = true → ∀ page, Covers desc page →
      ∃ entry, final.filter (Covers · page) = [entry]

theorem eq_of_covers {entries : List MemoryDescriptor} (sorted : SortedDisjoint entries)
    {left right : MemoryDescriptor} {page : Nat} (leftMember : left ∈ entries)
    (rightMember : right ∈ entries) (leftCovers : Covers left page) (rightCovers : Covers right page) :
    left = right := by
  have ordered : Ordered entries := ⟨fun desc member => (sorted.valid desc member).bounded, sorted.sorted⟩
  have both := (ordered.once leftMember leftCovers).symm.trans (ordered.once rightMember rightCovers)
  exact (List.cons.inj both).1

theorem Expanded.rebuilt {entries : List MemoryDescriptor}
    (expanded : Expanded getMemoryMap table entries) :
    Rebuilt address getMemoryMap table (entries.map (marked address)) := by
  have sorted : SortedDisjoint (entries.map (marked address)) := sortedDisjoint_marked expanded.sorted
  refine ⟨sorted, ?_, ?_, ?_⟩
  · intro attr member
    obtain ⟨copy, listed, copied⟩ := exists_copy_of_mem member
    refine ⟨copy, (ocSortMemoryMap_perm table).mem_iff.mp (mem_of_mem_copies listed), copied, ?_⟩
    exact mem_map_of_mem (expanded.kept.subset listed)
  · intro new member
    obtain ⟨entry, listed, rfl⟩ := mem_map.mp member
    by_cases old : entry ∈ copies (ocSortMemoryMap table)
    · exact .inl ⟨entry, (ocSortMemoryMap_perm table).mem_iff.mp (mem_of_mem_copies old), rfl⟩
    · -- A page in both would be in the copy of the old entry too.
      refine .inr fun attr attrMember page attrCovers covers => old ?_
      obtain ⟨copy, copyListed, copied⟩ := exists_copy_of_mem attrMember
      rw [isDuplicate_iff] at copied
      rw [Covers, ending, copied.1, copied.2] at attrCovers
      have same := eq_of_covers expanded.sorted listed (expanded.kept.subset copyListed)
        (covers_marked.mp covers) attrCovers
      rw [same]
      exact copyListed
  · intro fewer memoryMap read enough desc member runtime page covers
    obtain ⟨entry, listed, entryCovers⟩ := expanded.covers fewer memoryMap read enough desc
      (mem_filter.mpr ⟨member, runtime⟩) page covers
    have ordered : Ordered (entries.map (marked address)) :=
      ⟨fun desc member => (sorted.valid desc member).bounded, sorted.sorted⟩
    exact ⟨_, ordered.once (mem_map_of_mem listed) (covers_marked.mpr entryCovers)⟩

/-- The table is rebuilt when its sorted entries do not end in a duplicate. -/
theorem ocRebuildAttributes_rebuilt (bounded : address < u64) (suits : Table table)
    (fits : ∀ memoryMap, getMemoryMap = .ok memoryMap → MapOf memoryMap table)
    (alone : ¬EndsJoined dropDuplicate (ocSortMemoryMap table)) :
    ∃ fuel status final, ocRebuildAttributes fuel address getMemoryMap (some table) =
      some (status, final) ∧ Rebuilt address getMemoryMap table final := by
  obtain ⟨status, entries, ran, expanded⟩ := rebuildEntries_expanded suits fits alone
  have rebuilt : Rebuilt address getMemoryMap table (entries.map (marked address)) := expanded.rebuilt
  cases table with
  | nil =>
    have none : entries = [] := by
      have empty : rebuildEntries 1 getMemoryMap [] = some (.notFound, []) := rfl
      rw [length_nil, zero_add, empty] at ran
      exact (congrArg Prod.snd (Option.some.inj ran)).symm
    rw [none] at rebuilt
    exact ⟨0, _, _, rfl, rebuilt⟩
  | cons first rest =>
    refine ⟨(first :: rest).length + 1, ?_⟩
    simp only [ocRebuildAttributes, ran, Option.map_some]
    by_cases driver : address ≠ 0
    · have updated : entries.map (marked address) = (ocUpdateDescriptors address
          efiRuntimeServicesCode efiMemoryRo efiMemoryXp entries).2 := by
        rw [ocUpdateDescriptors_eq expanded.sorted bounded]
        exact map_congr_left fun entry _ => if_pos driver
      rw [updated] at rebuilt
      simp only [if_pos driver]
      exact ⟨_, _, rfl, rebuilt⟩
    · have same : entries.map (marked address) = entries :=
        (map_congr_left fun entry _ => if_neg driver).trans (map_id entries)
      rw [same] at rebuilt
      simp only [if_neg driver]
      exact ⟨status, entries, rfl, rebuilt⟩

def doubled : List MemoryDescriptor :=
  [⟨5, 0x1000, 1, 0x20000⟩, ⟨6, 0x3000, 1, 0x4000⟩, ⟨5, 0x1000, 1, 0x20000⟩]

theorem ocRebuildAttributes_rebuilt_doubled :
    ∃ fuel status final, ocRebuildAttributes fuel 0 (.ok [⟨5, 0x1000, 3, 15⟩]) (some doubled) =
      some (status, final) ∧ Rebuilt 0 (.ok [⟨5, 0x1000, 3, 15⟩]) doubled final := by
  apply ocRebuildAttributes_rebuilt
  · decide
  · refine ⟨?_, by decide, ?_⟩
    · simp only [doubled, mem_cons, not_mem_nil, or_false, forall_eq_or_imp, forall_eq]
      exact ⟨⟨by decide, by decide, by decide⟩, ⟨by decide, by decide, by decide⟩,
        ⟨by decide, by decide, by decide⟩⟩
    · simp only [doubled, Separate]
      decide
  · rintro memoryMap ⟨rfl⟩
    have single : runtimeEntries [⟨5, 0x1000, 3, 15⟩] = [⟨5, 0x1000, 3, 15⟩] := rfl
    constructor
    · simp only [single, mem_singleton, forall_eq]
      exact ⟨by decide, by decide, by decide⟩
    · rw [single]
      decide
    · rw [single]
      exact pairwise_singleton _ _
    · simp only [single, doubled, mem_cons, not_mem_nil, or_false, forall_eq_or_imp,
        forall_eq, exists_eq_left]
      exact ⟨⟨by decide, by decide⟩, ⟨by decide, by decide⟩, ⟨by decide, by decide⟩⟩
  · have sorted : ocSortMemoryMap doubled =
        [⟨5, 0x1000, 1, 0x20000⟩, ⟨5, 0x1000, 1, 0x20000⟩, ⟨6, 0x3000, 1, 0x4000⟩] := by decide
    rw [sorted, endsJoined_iff]
    decide

/-- Without duplicates in the table nothing is added to it, and the driver's entry is updated. -/
theorem ocRebuildAttributes_unfilled :
    ocRebuildAttributes 9 0x1000 (.ok [⟨5, 0x1000, 2, 15⟩]) (some [⟨5, 0x1000, 1, 0x20000⟩]) =
        some (.success, [⟨5, 0x1000, 1, 0x20000⟩]) ∧
      Covers ⟨5, 0x1000, 2, 15⟩ 2 ∧ ¬Covers ⟨5, 0x1000, 1, 0x20000⟩ 2 := by
  decide

end Rebuild

end OpenCore.AttributesRebuild
