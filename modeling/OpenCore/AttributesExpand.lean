import Mathlib.Algebra.Ring.Nat
import Mathlib.Data.Finset.Card
import Mathlib.Data.Finset.Insert
import OpenCore.MemoryMapSplit

/-!
`OcExpandAttributesByMap`: the memory attributes table gets an entry for every stretch of a
runtime descriptor that none of its entries covers. The table is an array that grows while it is
walked together with the memory map, up to a number of entries that it may not exceed.
-/

namespace OpenCore.AttributesExpand

open Base MemoryAttributes MemoryMapPages MemoryMapSplit List

section Source

def efiMemoryRuntime : Nat := 0x8000000000000000

def nextAddress (desc : MemoryDescriptor) : Nat := (lastDescriptorAddr desc + 1) % u64

def newAttribute (entry : MemoryDescriptor) (currentMapAddress nextMatAddress : Nat) :
    MemoryDescriptor :=
  { type := ocRealMemoryType entry
    physicalStart := currentMapAddress
    numberOfPages := efiSizeToPages (wrapSub u64 nextMatAddress currentMapAddress)
    attributeFlags := efiMemoryRuntime |||
      if ocRealMemoryType entry = efiRuntimeServicesCode then efiMemoryRo else efiMemoryXp }

/-- `OcExpandAttributeWrite`: in front of an entry of the table, or at its end. None is a table
that is full. -/
def ocExpandAttributeWrite (maxDescriptors : Nat) (position : Option (Nat × MemoryDescriptor))
    (entry : MemoryDescriptor) (currentMapAddress : Nat) (table : List MemoryDescriptor) :
    Option (List MemoryDescriptor) :=
  if maxDescriptors ≤ table.length then none
  else
    match position with
    | some (index, attr) =>
      let nextMatAddress :=
        if attr.physicalStart < nextAddress entry then attr.physicalStart else nextAddress entry
      some ((copyUp table index).set index (newAttribute entry currentMapAddress nextMatAddress))
    | none => some (table ++ [newAttribute entry currentMapAddress (nextAddress entry)])

structure Cursor where
  table : List MemoryDescriptor
  matIndex : Nat
  status : EfiStatus
  deriving DecidableEq

def Cursor.next (cursor : Cursor) : Cursor := { cursor with matIndex := cursor.matIndex + 1 }

/-- The loop over the table within one runtime descriptor, with the address up to which it is
covered. -/
def coverEntry (maxDescriptors : Nat) (entry : MemoryDescriptor) :
    Nat → Cursor → Nat → Option (Except Cursor (Cursor × Nat))
  | 0, _, _ => none
  | fuel + 1, cursor, current =>
    match cursor.table[cursor.matIndex]? with
    | none => some (.ok (cursor, current))
    | some attr =>
      if current < nextAddress entry then
        if isRuntime attr.type then
          -- An entry that ends before this descriptor is passed over.
          if lastDescriptorAddr attr < entry.physicalStart then
            coverEntry maxDescriptors entry fuel cursor.next current
          else if current = attr.physicalStart then
            coverEntry maxDescriptors entry fuel cursor.next (nextAddress attr)
          else
            match ocExpandAttributeWrite maxDescriptors (some (cursor.matIndex, attr)) entry
                current cursor.table with
            | none => some (.error cursor)
            | some table =>
              coverEntry maxDescriptors entry fuel ⟨table, cursor.matIndex + 1, .success⟩
                ((table[cursor.matIndex]?.map nextAddress).getD 0)
        else coverEntry maxDescriptors entry fuel cursor.next current
      else some (.ok (cursor, current))

def expandEntries (maxDescriptors fuel : Nat) :
    List MemoryDescriptor → Cursor → Option (EfiStatus × List MemoryDescriptor)
  | [], cursor => some (cursor.status, cursor.table)
  | entry :: rest, cursor =>
    if isRuntime entry.type then
      (coverEntry maxDescriptors entry fuel cursor entry.physicalStart).bind fun
        | .error stopped => some (.outOfResources, stopped.table)
        | .ok (covered, current) =>
          if current = nextAddress entry then expandEntries maxDescriptors fuel rest covered
          else
            match ocExpandAttributeWrite maxDescriptors none entry current covered.table with
            | none => some (.outOfResources, covered.table)
            | some table =>
              expandEntries maxDescriptors fuel rest ⟨table, covered.matIndex + 1, .success⟩
    else expandEntries maxDescriptors fuel rest cursor

def ocExpandAttributesByMap (fuel maxDescriptors : Nat) (memoryMap table : List MemoryDescriptor) :
    Option (EfiStatus × List MemoryDescriptor) :=
  expandEntries maxDescriptors fuel memoryMap ⟨table, 0, .notFound⟩

end Source

section Gaps

/-- The addresses of a descriptor behind which memory is missing in the table: its start or the
end of an entry, where no entry begins. -/
def gaps (desc : MemoryDescriptor) (attrs : List MemoryDescriptor) : Finset Nat :=
  (insert desc.physicalStart (attrs.map ending).toFinset).filter fun address =>
    desc.physicalStart ≤ address ∧ address < ending desc ∧
      ∀ attr ∈ attrs, attr.physicalStart ≠ address

def gapCount (descs attrs : List MemoryDescriptor) : Nat :=
  (descs.map fun desc => (gaps desc attrs).card).sum

variable {desc attr : MemoryDescriptor} {descs attrs others : List MemoryDescriptor} {address : Nat}

theorem mem_gaps : address ∈ gaps desc attrs ↔
    (address = desc.physicalStart ∨ ∃ attr ∈ attrs, ending attr = address) ∧
      desc.physicalStart ≤ address ∧ address < ending desc ∧
      ∀ attr ∈ attrs, attr.physicalStart ≠ address := by
  simp only [gaps, Finset.mem_filter, Finset.mem_insert, mem_toFinset, mem_map]

theorem gapCount_cons :
    gapCount (desc :: descs) attrs = (gaps desc attrs).card + gapCount descs attrs := by
  rw [gapCount, map_cons, sum_cons, ← gapCount]

theorem gapCount_congr (same : ∀ desc ∈ descs, gaps desc attrs = gaps desc others) :
    gapCount descs attrs = gapCount descs others := by
  rw [gapCount, gapCount]
  congr 1
  apply map_congr_left
  intro desc member
  rw [same desc member]

theorem gapCount_perm {permuted : List MemoryDescriptor} (perm : descs.Perm permuted) :
    gapCount descs attrs = gapCount permuted attrs :=
  (perm.map _).sum_nat

theorem gaps_congr (forth : ∀ attr ∈ attrs, ∃ other ∈ others,
      other.physicalStart = attr.physicalStart ∧ other.numberOfPages = attr.numberOfPages)
    (back : ∀ other ∈ others, ∃ attr ∈ attrs,
      attr.physicalStart = other.physicalStart ∧ attr.numberOfPages = other.numberOfPages) :
    gaps desc attrs = gaps desc others := by
  ext address
  rw [mem_gaps, mem_gaps]
  constructor
  · rintro ⟨begins, low, high, apart⟩
    refine ⟨begins.imp_right ?_, low, high, ?_⟩
    · rintro ⟨attr, member, rfl⟩
      obtain ⟨other, otherMember, start, pages⟩ := forth attr member
      exact ⟨other, otherMember, by rw [ending, ending, start, pages]⟩
    · intro other member
      obtain ⟨attr, attrMember, start, _⟩ := back other member
      rw [← start]
      exact apart attr attrMember
  · rintro ⟨begins, low, high, apart⟩
    refine ⟨begins.imp_right ?_, low, high, ?_⟩
    · rintro ⟨other, member, rfl⟩
      obtain ⟨attr, attrMember, start, pages⟩ := back other member
      exact ⟨attr, attrMember, by rw [ending, ending, start, pages]⟩
    · intro attr member
      obtain ⟨other, otherMember, start, _⟩ := forth attr member
      rw [← start]
      exact apart other otherMember

end Gaps

section Regions
variable {desc attr piece : MemoryDescriptor} {regions attrs : List MemoryDescriptor}

def ahead (desc : MemoryDescriptor) (current : Nat) : MemoryDescriptor :=
  { desc with
    physicalStart := current
    numberOfPages := (ending desc - current) / efiPageSize }

/-- What is still to be covered: runs of pages that follow each other, the first of which may be
empty, and entries of the table within them. -/
structure Ahead (regions attrs : List MemoryDescriptor) : Prop where
  aligned : ∀ region ∈ regions, region.physicalStart % efiPageSize = 0
  bounded : ∀ region ∈ regions, ending region < u64
  apart : regions.Pairwise fun earlier later => ending earlier ≤ later.physicalStart
  attrsSorted : SortedDisjoint attrs
  inside : ∀ attr ∈ attrs, ∃ region ∈ regions, Contains region attr

theorem ending_ahead {current : Nat} (aligned : desc.physicalStart % efiPageSize = 0)
    (currentAligned : current % efiPageSize = 0) (low : current ≤ ending desc) :
    ending (ahead desc current) = ending desc := by
  rw [ending, ahead]
  dsimp only
  rw [ending, efiPageSize_val] at *
  omega

theorem ahead_start : ahead desc desc.physicalStart = desc := by
  have pages : (ending desc - desc.physicalStart) / efiPageSize = desc.numberOfPages := by
    rw [ending, Nat.add_sub_cancel_left, Nat.mul_div_cancel _ (by decide)]
  rw [ahead, pages]

theorem efiPageSize_dvd_ending (aligned : desc.physicalStart % efiPageSize = 0) :
    ending desc % efiPageSize = 0 := by
  rw [ending, Nat.add_mul_mod_self_right, aligned]

theorem nextAddress_eq (positive : 0 < desc.numberOfPages) (bounded : ending desc < u64)
    (aligned : desc.physicalStart % efiPageSize = 0) : nextAddress desc = ending desc := by
  have ends : ending desc = desc.physicalStart + desc.numberOfPages * 4096 := rfl
  rw [nextAddress, lastDescriptorAddr_of_valid ⟨aligned, positive, bounded.le⟩,
    Nat.sub_add_cancel (by omega), Nat.mod_eq_of_lt bounded]

theorem Ahead.low (state : Ahead (desc :: regions) attrs) :
    ∀ attr ∈ attrs, desc.physicalStart ≤ attr.physicalStart := by
  intro attr member
  obtain ⟨region, listed, inside⟩ := state.inside attr member
  rcases mem_cons.mp listed with rfl | later
  · exact inside.1
  · have apart := (pairwise_cons.mp state.apart).1 region later
    have start : desc.physicalStart ≤ ending desc := Nat.le_add_right _ _
    exact start.trans (apart.trans inside.1)

theorem Ahead.tail (state : Ahead (desc :: regions) attrs) (empty : ending desc ≤ desc.physicalStart) :
    Ahead regions attrs where
  aligned region member := state.aligned region (mem_cons_of_mem _ member)
  bounded region member := state.bounded region (mem_cons_of_mem _ member)
  apart := (pairwise_cons.mp state.apart).2
  attrsSorted := state.attrsSorted
  inside attr member := by
    obtain ⟨region, listed, inside⟩ := state.inside attr member
    rcases mem_cons.mp listed with rfl | later
    · have positive := (state.attrsSorted.valid attr member).positive
      have attrEnds : ending attr = attr.physicalStart + attr.numberOfPages * 4096 := rfl
      have starts := inside.1
      have ends := inside.2
      omega
    · exact ⟨region, later, inside⟩

theorem Ahead.advance {current : Nat} {later : List MemoryDescriptor}
    (state : Ahead (desc :: regions) attrs) (aligned : current % efiPageSize = 0)
    (low : desc.physicalStart ≤ current) (high : current ≤ ending desc)
    (sorted : SortedDisjoint later) (listed : ∀ attr ∈ later, attr ∈ attrs)
    (behind : ∀ attr ∈ later, current ≤ attr.physicalStart) :
    Ahead (ahead desc current :: regions) later := by
  have descAligned := state.aligned desc mem_cons_self
  have ends := ending_ahead descAligned aligned high
  refine ⟨?_, ?_, ?_, sorted, ?_⟩
  · intro region member
    rcases mem_cons.mp member with rfl | member
    · exact aligned
    · exact state.aligned region (mem_cons_of_mem _ member)
  · intro region member
    rcases mem_cons.mp member with rfl | member
    · rw [ends]
      exact state.bounded desc mem_cons_self
    · exact state.bounded region (mem_cons_of_mem _ member)
  · have pairs := pairwise_cons.mp state.apart
    refine pairwise_cons.mpr ⟨?_, pairs.2⟩
    rw [ends]
    exact pairs.1
  · intro attr member
    obtain ⟨region, regionListed, inside⟩ := state.inside attr (listed attr member)
    rcases mem_cons.mp regionListed with rfl | further
    · refine ⟨ahead region current, mem_cons_self, behind attr member, ?_⟩
      rw [ends]
      exact inside.2
    · exact ⟨region, mem_cons_of_mem _ further, inside⟩

end Regions

section Steps
variable {desc attr piece : MemoryDescriptor} {regions attrs later : List MemoryDescriptor}
  {current : Nat}
variable {final : List MemoryDescriptor}

theorem Ahead.gaps_taken (state : Ahead (desc :: regions) (attr :: later))
    (begins : desc.physicalStart = attr.physicalStart) (high : ending attr ≤ ending desc) :
    gaps desc (attr :: later) = gaps (ahead desc (ending attr)) later := by
  obtain ⟨validAttr, apart, sortedLater⟩ := state.attrsSorted.cons
  have positive := validAttr.positive
  have attrEnds : ending attr = attr.physicalStart + attr.numberOfPages * 4096 := rfl
  have ends := ending_ahead (state.aligned desc mem_cons_self)
    (efiPageSize_dvd_ending validAttr.aligned) high
  have start : (ahead desc (ending attr)).physicalStart = ending attr := rfl
  ext address
  rw [mem_gaps, mem_gaps, ends, start]
  simp only [exists_mem_cons_iff, forall_mem_cons]
  constructor
  · rintro ⟨begin, low, below, notFirst, others⟩
    rcases begin with rfl | rfl | ⟨other, member, rfl⟩
    · exact absurd begins.symm notFirst
    · exact ⟨.inl rfl, le_refl _, below, others⟩
    · refine ⟨.inr ⟨other, member, rfl⟩, ?_, below, others⟩
      exact (apart other member).trans (Nat.le_add_right _ _)
  · rintro ⟨begin, low, below, others⟩
    refine ⟨?_, by omega, below, by omega, others⟩
    rcases begin with rfl | behind
    · exact .inr (.inl rfl)
    · exact .inr (.inr behind)

theorem Ahead.gaps_filled (state : Ahead (desc :: regions) attrs)
    (aligned : current % efiPageSize = 0)
    (low : desc.physicalStart < current) (high : current ≤ ending desc)
    (behind : ∀ attr ∈ attrs, current ≤ attr.physicalStart)
    (meets : current = ending desc ∨ ∃ attr ∈ attrs, attr.physicalStart = current) :
    (gaps desc attrs).card = 1 + (gaps (ahead desc current) attrs).card := by
  have ends := ending_ahead (state.aligned desc mem_cons_self) aligned high
  have start : (ahead desc current).physicalStart = current := rfl
  have first : desc.physicalStart ∉ gaps (ahead desc current) attrs := by
    rw [mem_gaps, start]
    omega
  have whole : gaps desc attrs = insert desc.physicalStart (gaps (ahead desc current) attrs) := by
    ext address
    rw [Finset.mem_insert, mem_gaps, mem_gaps, ends, start]
    constructor
    · rintro ⟨begin, lower, below, apart⟩
      rcases begin with rfl | ⟨other, member, rfl⟩
      · exact .inl rfl
      · refine .inr ⟨.inr ⟨other, member, rfl⟩, ?_, below, apart⟩
        exact (behind other member).trans (Nat.le_add_right _ _)
    · rintro (rfl | ⟨begin, lower, below, apart⟩)
      · refine ⟨.inl rfl, le_refl _, by omega, fun other member same => ?_⟩
        have later := behind other member
        omega
      · refine ⟨?_, by omega, below, apart⟩
        rcases begin with rfl | ended
        · -- No gap begins where the new entry ends.
          rcases meets with same | ⟨other, member, same⟩
          · omega
          · exact absurd same (apart other member)
        · exact .inr ended
  rw [whole, Finset.card_insert_of_notMem first, add_comm]

theorem gaps_empty (empty : ending desc ≤ desc.physicalStart) : gaps desc attrs = ∅ := by
  rw [Finset.eq_empty_iff_forall_notMem]
  intro address member
  have range := (mem_gaps.mp member).2
  omega

theorem Ahead.gapCount_taken (state : Ahead (desc :: regions) (attr :: later))
    (inside : ending attr ≤ ending desc) :
    gapCount regions (attr :: later) = gapCount regions later := by
  apply gapCount_congr
  intro region member
  have apart := (pairwise_cons.mp state.apart).1 region member
  have positive := state.attrsSorted.cons.1.positive
  have attrEnds : ending attr = attr.physicalStart + attr.numberOfPages * 4096 := rfl
  ext address
  rw [mem_gaps, mem_gaps]
  simp only [exists_mem_cons_iff, forall_mem_cons]
  constructor
  · rintro ⟨begin, low, below, _, others⟩
    refine ⟨?_, low, below, others⟩
    rcases begin with rfl | rfl | behind
    · exact .inl rfl
    · exact .inl (by omega)
    · exact .inr behind
  · rintro ⟨begin, low, below, others⟩
    exact ⟨begin.imp_right .inr, low, below, by omega, others⟩

structure Fills (regions attrs : List MemoryDescriptor) (status : EfiStatus)
    (final : List MemoryDescriptor) : Prop where
  sorted : SortedDisjoint final
  within : ∀ entry ∈ final, ∃ region ∈ regions, Contains region entry
  kept : attrs.Sublist final
  covers : status ≠ .outOfResources →
    ∀ region ∈ regions, ∀ page, Covers region page → ∃ entry ∈ final, Covers entry page

theorem Fills.nil {status : EfiStatus} (state : Ahead [] attrs) : Fills [] attrs status attrs where
  sorted := state.attrsSorted
  within := state.inside
  kept := List.Sublist.refl _
  covers _ _ member := by cases member

theorem Fills.stopped (state : Ahead regions attrs) : Fills regions attrs .outOfResources attrs where
  sorted := state.attrsSorted
  within := state.inside
  kept := List.Sublist.refl _
  covers complete := absurd rfl complete

theorem Fills.drop {status : EfiStatus}
    (empty : ending desc ≤ desc.physicalStart) (fills : Fills regions attrs status final) :
    Fills (desc :: regions) attrs status final where
  sorted := fills.sorted
  within entry member := by
    obtain ⟨region, listed, inside⟩ := fills.within entry member
    exact ⟨region, mem_cons_of_mem _ listed, inside⟩
  kept := fills.kept
  covers complete region member page covered := by
    rcases mem_cons.mp member with rfl | further
    · have low := covered.1
      have high := covered.2
      omega
    · exact fills.covers complete region further page covered

theorem Fills.cons {status : EfiStatus}
    (state : Ahead (desc :: regions) attrs) (valid : Valid piece)
    (begins : piece.physicalStart = desc.physicalStart) (high : ending piece ≤ ending desc)
    (keeps : later.Sublist final → attrs.Sublist (piece :: final))
    (fills : Fills (ahead desc (ending piece) :: regions) later status final) :
    Fills (desc :: regions) attrs status (piece :: final) := by
  have ends := ending_ahead (state.aligned desc mem_cons_self)
    (efiPageSize_dvd_ending valid.aligned) high
  have pieceStarts : piece.physicalStart ≤ ending piece := Nat.le_add_right _ _
  have follows : ∀ entry ∈ final, ending piece ≤ entry.physicalStart := by
    intro entry member
    obtain ⟨region, listed, inside⟩ := fills.within entry member
    rcases mem_cons.mp listed with rfl | further
    · exact inside.1
    · exact (high.trans ((pairwise_cons.mp state.apart).1 region further)).trans inside.1
  constructor
  · refine ⟨?_, pairwise_cons.mpr ⟨follows, fills.sorted.sorted⟩⟩
    intro entry member
    rcases mem_cons.mp member with rfl | further
    · exact valid
    · exact fills.sorted.valid entry further
  · intro entry member
    rcases mem_cons.mp member with rfl | further
    · exact ⟨desc, mem_cons_self, begins.ge, high⟩
    · obtain ⟨region, listed, inside⟩ := fills.within entry further
      rcases mem_cons.mp listed with rfl | other
      · refine ⟨desc, mem_cons_self, ?_, ends ▸ inside.2⟩
        have low : ending piece ≤ entry.physicalStart := inside.1
        omega
      · exact ⟨region, mem_cons_of_mem _ other, inside⟩
  · exact keeps fills.kept
  · intro complete region member page covered
    rcases mem_cons.mp member with rfl | further
    · -- A page of the region is in the new entry or behind it.
      rcases Nat.lt_or_ge (page * efiPageSize) (ending piece) with here | beyond
      · exact ⟨piece, mem_cons_self, begins ▸ covered.1, here⟩
      · have behind : Covers (ahead region (ending piece)) page := ⟨beyond, ends ▸ covered.2⟩
        obtain ⟨entry, listed, covers⟩ := fills.covers complete _ mem_cons_self page behind
        exact ⟨entry, mem_cons_of_mem _ listed, covers⟩
    · obtain ⟨entry, listed, covers⟩ :=
        fills.covers complete region (mem_cons_of_mem _ further) page covered
      exact ⟨entry, mem_cons_of_mem _ listed, covers⟩

end Steps

section Walk
variable {entry attr piece : MemoryDescriptor} {front regions attrs later : List MemoryDescriptor}
  {total current : Nat} {result : Option (EfiStatus × List MemoryDescriptor)}
variable {memoryMap : List MemoryDescriptor} {next : Nat} {fuel : Nat}

/-- The front of the table stays, what is behind it is filled, and the walk fails exactly where
the gaps are more than the slots left. -/
def Filled (total : Nat) (front regions attrs : List MemoryDescriptor)
    (result : Option (EfiStatus × List MemoryDescriptor)) : Prop :=
  ∃ status final, result = some (status, front ++ final) ∧ Fills regions attrs status final ∧
    (status = .outOfResources ↔ total < (front ++ attrs).length + gapCount regions attrs)

theorem Filled.drop (empty : ending entry ≤ entry.physicalStart)
    (filled : Filled total front regions attrs result) :
    Filled total front (entry :: regions) attrs result := by
  obtain ⟨status, final, ran, fills, fails⟩ := filled
  refine ⟨status, final, ran, fills.drop empty, ?_⟩
  rw [gapCount_cons, gaps_empty empty, Finset.card_empty, zero_add]
  exact fails

theorem Filled.take (state : Ahead (entry :: regions) (attr :: later))
    (begins : attr.physicalStart = entry.physicalStart) (high : ending attr ≤ ending entry)
    (filled : Filled total (front ++ [attr]) (ahead entry (ending attr) :: regions) later result) :
    Filled total front (entry :: regions) (attr :: later) result := by
  obtain ⟨status, final, ran, fills, fails⟩ := filled
  refine ⟨status, attr :: final, ?_, ?_, ?_⟩
  · rw [ran, ← append_cons]
  · exact fills.cons state state.attrsSorted.cons.1 begins high fun kept => kept.cons_cons attr
  · rw [fails, gapCount_cons, gapCount_cons, state.gaps_taken begins.symm high,
      state.gapCount_taken high]
    simp only [length_append, length_cons, length_nil]
    omega

theorem Filled.write (state : Ahead (entry :: regions) attrs) (valid : Valid piece)
    (begins : piece.physicalStart = entry.physicalStart) (high : ending piece ≤ ending entry)
    (behind : ∀ attr ∈ attrs, ending piece ≤ attr.physicalStart)
    (meets : ending piece = ending entry ∨ ∃ attr ∈ attrs, attr.physicalStart = ending piece)
    (filled : Filled total (front ++ [piece]) (ahead entry (ending piece) :: regions) attrs result) :
    Filled total front (entry :: regions) attrs result := by
  obtain ⟨status, final, ran, fills, fails⟩ := filled
  have positive := valid.positive
  have pieceEnds : ending piece = piece.physicalStart + piece.numberOfPages * 4096 := rfl
  have one := state.gaps_filled (efiPageSize_dvd_ending valid.aligned) (by omega) high behind meets
  refine ⟨status, piece :: final, ?_, ?_, ?_⟩
  · rw [ran, ← append_cons]
  · exact fills.cons state valid begins high fun kept => kept.cons piece
  · rw [fails, gapCount_cons, gapCount_cons, one]
    simp only [length_append, length_cons, length_nil]
    omega

theorem Filled.full (state : Ahead (entry :: regions) attrs) (starts : entry.physicalStart < ending entry)
    (gap : ∀ attr ∈ attrs, attr.physicalStart ≠ entry.physicalStart)
    (full : total ≤ (front ++ attrs).length) :
    Filled total front (entry :: regions) attrs (some (.outOfResources, front ++ attrs)) := by
  have some : 0 < (gaps entry attrs).card :=
    Finset.card_pos.mpr ⟨_, mem_gaps.mpr ⟨.inl rfl, le_refl _, starts, gap⟩⟩
  refine ⟨_, attrs, rfl, Fills.stopped state, fun _ => ?_, fun _ => rfl⟩
  rw [gapCount_cons]
  omega

theorem newAttribute_spec (aligned : current % efiPageSize = 0)
    (nextAligned : next % efiPageSize = 0) (low : current < next) (high : next < u64) :
    Valid (newAttribute entry current next) ∧ ending (newAttribute entry current next) = next := by
  have pages : (newAttribute entry current next).numberOfPages = (next - current) / efiPageSize := by
    show efiSizeToPages (wrapSub u64 next current) = _
    rw [wrapSub_of_le low.le high, efiSizeToPages_of_aligned]
    rw [efiPageSize_val] at *
    omega
  have start : (newAttribute entry current next).physicalStart = current := rfl
  have ends : ending (newAttribute entry current next) = next := by
    rw [ending, pages, start]
    rw [efiPageSize_val] at *
    omega
  refine ⟨⟨aligned, ?_, ends.trans_le high.le⟩, ends⟩
  rw [pages]
  rw [efiPageSize_val] at *
  omega

theorem ocExpandAttributeWrite_front (room : (front ++ attr :: later).length < total) :
    ocExpandAttributeWrite total (some (front.length, attr)) entry current (front ++ attr :: later) =
      some (front ++ newAttribute entry current
        (if attr.physicalStart < nextAddress entry then attr.physicalStart else nextAddress entry) ::
          attr :: later) := by
  rw [ocExpandAttributeWrite, if_neg (Nat.not_le_of_lt room)]
  simp only [copyUp_append, set_append_right _ _ (le_refl _), Nat.sub_self, set_cons_zero]

theorem ahead_ahead (aligned : entry.physicalStart % efiPageSize = 0)
    (currentAligned : current % efiPageSize = 0) (low : current ≤ ending entry) :
    ahead (ahead entry current) next = ahead entry next := by
  show MemoryDescriptor.mk _ _ ((ending (ahead entry current) - next) / efiPageSize) _ = _
  rw [ending_ahead aligned currentAligned low]
  rfl

structure Covering (total : Nat) (entry : MemoryDescriptor) (regions front attrs : List MemoryDescriptor)
    (status : EfiStatus) (current : Nat) : Prop where
  ahead : Ahead (ahead entry current :: regions) attrs
  low : entry.physicalStart ≤ current
  high : current ≤ ending entry
  runtime : ∀ attr ∈ attrs, isRuntime attr.type = true
  room : (front ++ attrs).length ≤ total
  ran : status ≠ .outOfResources

namespace Covering
variable {status : EfiStatus}

theorem aligned (covering : Covering total entry regions front attrs status current) :
    current % efiPageSize = 0 := covering.ahead.aligned (AttributesExpand.ahead entry current)
  mem_cons_self

theorem ends (covering : Covering total entry regions front attrs status current)
    (valid : Valid entry) : ending (AttributesExpand.ahead entry current) = ending entry :=
  ending_ahead valid.aligned covering.aligned covering.high

theorem nearby (covering : Covering total entry regions front (attr :: later) status current)
    (valid : Valid entry) (starts : attr.physicalStart < ending entry) :
    ending attr ≤ ending entry := by
  rw [← covering.ends valid] at starts ⊢
  obtain ⟨region, listed, inside⟩ := covering.ahead.inside attr mem_cons_self
  rcases mem_cons.mp listed with rfl | further
  · exact inside.2
  · have apart := (pairwise_cons.mp covering.ahead.apart).1 region further
    have begins := inside.1
    omega

theorem take (covering : Covering total entry regions front (attr :: later) status current)
    (valid : Valid entry) (begins : attr.physicalStart = current) (high : ending attr ≤ ending entry) :
    Covering total entry regions (front ++ [attr]) later status (ending attr) := by
  have state := covering.ahead
  obtain ⟨validAttr, apart, sortedLater⟩ := state.attrsSorted.cons
  have starts : attr.physicalStart ≤ ending attr := Nat.le_add_right _ _
  have low := covering.low
  refine ⟨?_, by omega, high, ?_, ?_, covering.ran⟩
  · rw [← ahead_ahead valid.aligned covering.aligned covering.high]
    exact state.advance (efiPageSize_dvd_ending validAttr.aligned) (begins ▸ starts)
      ((covering.ends valid).symm ▸ high) sortedLater
      (fun _ member => mem_cons_of_mem _ member) apart
  · exact fun other member => covering.runtime other (mem_cons_of_mem _ member)
  · rw [← append_cons]
    exact covering.room

theorem write (covering : Covering total entry regions front attrs status current)
    (valid : Valid entry) (validPiece : Valid piece) (begins : piece.physicalStart = current)
    (high : ending piece ≤ ending entry) (behind : ∀ attr ∈ attrs, ending piece ≤ attr.physicalStart)
    (room : (front ++ attrs).length < total) :
    Covering total entry regions (front ++ [piece]) attrs .success (ending piece) := by
  have state := covering.ahead
  have starts : piece.physicalStart ≤ ending piece := Nat.le_add_right _ _
  have low := covering.low
  refine ⟨?_, by omega, high, covering.runtime, ?_, by decide⟩
  · rw [← ahead_ahead valid.aligned covering.aligned covering.high]
    exact state.advance (efiPageSize_dvd_ending validPiece.aligned) (begins ▸ starts)
      ((covering.ends valid).symm ▸ high) state.attrsSorted (fun _ member => member) behind
  · simp only [length_append, length_cons, length_nil] at *
    omega

end Covering

/-- The loop within a descriptor comes to a walk that goes on where it ends: with no entry left,
or with the descriptor covered. -/
theorem coverEntry_filled {status : EfiStatus}
    {finish : Except Cursor (Cursor × Nat) → Option (EfiStatus × List MemoryDescriptor)}
    (valid : Valid entry) (bounded : ending entry < u64)
    (covering : Covering total entry regions front attrs status current)
    (enough : total < front.length + fuel)
    (stops : ∀ cursor, finish (.error cursor) = some (.outOfResources, cursor.table))
    (onward : ∀ front attrs status current, Covering total entry regions front attrs status current →
      attrs = [] ∨ current = ending entry →
      Filled total front (ahead entry current :: regions) attrs
        (finish (.ok (⟨front ++ attrs, front.length, status⟩, current)))) :
    Filled total front (ahead entry current :: regions) attrs
      ((coverEntry total entry fuel ⟨front ++ attrs, front.length, status⟩ current).bind finish) := by
  induction fuel generalizing front attrs status current with
  | zero =>
    have room := covering.room
    rw [length_append] at room
    omega
  | succ fuel ih =>
    rw [coverEntry]
    have next := nextAddress_eq valid.positive bounded valid.aligned
    cases attrs with
    | nil =>
      have none : (front ++ [])[front.length]? = (none : Option MemoryDescriptor) := by
        rw [append_nil, getElem?_eq_none (le_refl _)]
      simp only [none, Option.bind_some]
      exact onward _ _ _ _ covering (.inl rfl)
    | cons attr later =>
      have longer : ∀ entry : MemoryDescriptor, (front ++ [entry]).length = front.length + 1 :=
        fun _ => length_append
      have state := covering.ahead
      have ends := covering.ends valid
      have aligned := covering.aligned
      have low : current ≤ attr.physicalStart := state.low attr mem_cons_self
      have validAttr := state.attrsSorted.cons.1
      have attrEnds : ending attr = attr.physicalStart + attr.numberOfPages * 4096 := rfl
      have last : ¬lastDescriptorAddr attr < entry.physicalStart := by
        rw [lastDescriptorAddr_of_valid validAttr]
        have positive := validAttr.positive
        have atLeast := covering.low
        omega
      simp only [getElem?_append_length, next, covering.runtime attr mem_cons_self, if_true,
        if_neg last]
      split
      · rename_i before
        split
        · rename_i begins
          have inside := covering.nearby valid (begins ▸ before)
          have attrNext := nextAddress_eq validAttr.positive (by omega) validAttr.aligned
          have shape : Cursor.next ⟨front ++ attr :: later, front.length, status⟩ =
              ⟨front ++ [attr] ++ later, (front ++ [attr]).length, status⟩ := by
            rw [Cursor.next, longer, ← append_cons]
          rw [attrNext, shape]
          apply Filled.take state begins.symm (ends.symm ▸ inside)
          rw [ahead_ahead valid.aligned aligned covering.high]
          exact ih (covering.take valid begins.symm inside) (by rw [longer]; omega)
        · rename_i notBegins
          by_cases full : total ≤ (front ++ attr :: later).length
          · have refused : ocExpandAttributeWrite total (some (front.length, attr)) entry current
                (front ++ attr :: later) = none := if_pos full
            simp only [refused, Option.bind_some, stops]
            apply Filled.full state (ends.symm ▸ before) _ full
            intro other member same
            have start : current = other.physicalStart := same.symm
            rcases mem_cons.mp member with rfl | further
            · exact notBegins start
            · have follows := state.attrsSorted.cons.2.1 other further
              have positive := validAttr.positive
              omega
          · rw [ocExpandAttributeWrite_front (Nat.lt_of_not_le full), next]
            generalize upTo : (if attr.physicalStart < ending entry then attr.physicalStart
              else ending entry) = bound
            -- The new entry reaches the next entry or the end of the descriptor.
            have bounds : bound % efiPageSize = 0 ∧ current < bound ∧ bound ≤ ending entry ∧
                bound ≤ attr.physicalStart ∧
                (bound = ending entry ∨ attr.physicalStart = bound) := by
              rw [← upTo]
              split
              · rename_i within
                exact ⟨validAttr.aligned, by omega, within.le, le_refl _, .inr rfl⟩
              · rename_i beyond
                exact ⟨efiPageSize_dvd_ending valid.aligned, before, le_refl _, by omega, .inl rfl⟩
            obtain ⟨boundAligned, above, upper, under, meets⟩ := bounds
            obtain ⟨validPiece, pieceEnds⟩ :=
              @newAttribute_spec entry current bound aligned boundAligned above (by omega)
            have pieceStart : (newAttribute entry current bound).physicalStart = current := rfl
            generalize newAttribute entry current bound = piece at *
            subst pieceEnds
            have pieceNext := nextAddress_eq validPiece.positive (by omega) validPiece.aligned
            have behind : ∀ other ∈ attr :: later, ending piece ≤ other.physicalStart := by
              intro other member
              rcases mem_cons.mp member with rfl | further
              · exact under
              · have follows := state.attrsSorted.cons.2.1 other further
                omega
            simp only [getElem?_append_length, Option.map_some, Option.getD_some, pieceNext]
            apply Filled.write state validPiece pieceStart (ends.symm ▸ upper) behind
            · rw [ends]
              exact meets.imp_right fun same => ⟨attr, mem_cons_self, same⟩
            · rw [ahead_ahead valid.aligned aligned covering.high, ← longer piece,
                append_cons front piece (attr :: later)]
              exact ih (covering.write valid validPiece pieceStart upper behind
                (Nat.lt_of_not_le full)) (by rw [longer]; omega)
      · rename_i covered
        have done : current = ending entry := le_antisymm covering.high (Nat.le_of_not_lt covered)
        exact onward _ _ _ _ covering (.inr done)

def runtimeEntries (memoryMap : List MemoryDescriptor) : List MemoryDescriptor :=
  memoryMap.filter fun desc => isRuntime desc.type

theorem runtimeEntries_cons :
    runtimeEntries (entry :: memoryMap) =
      if isRuntime entry.type then entry :: runtimeEntries memoryMap else runtimeEntries memoryMap :=
  filter_cons

theorem expandEntries_filled {status : EfiStatus}
    (valid : ∀ desc ∈ runtimeEntries memoryMap, Valid desc)
    (state : Ahead (runtimeEntries memoryMap) attrs)
    (runtime : ∀ attr ∈ attrs, isRuntime attr.type = true) (room : (front ++ attrs).length ≤ total)
    (ran : status ≠ .outOfResources) (enough : total < fuel) :
    Filled total front (runtimeEntries memoryMap) attrs
      (expandEntries total fuel memoryMap ⟨front ++ attrs, front.length, status⟩) := by
  induction memoryMap generalizing front attrs status with
  | nil =>
    refine ⟨status, attrs, rfl, Fills.nil state, fun failed => absurd failed ran, ?_⟩
    intro short
    exact absurd room (Nat.not_le_of_lt short)
  | cons entry memoryMap ih =>
    rw [expandEntries]
    rw [runtimeEntries_cons] at valid state ⊢
    split
    · rename_i isRun
      rw [if_pos isRun] at valid state
      have validEntry := valid entry mem_cons_self
      have bounded := state.bounded entry mem_cons_self
      have next := nextAddress_eq validEntry.positive bounded validEntry.aligned
      have validRest : ∀ desc ∈ runtimeEntries memoryMap, Valid desc :=
        fun desc member => valid desc (mem_cons_of_mem _ member)
      have start : Covering total entry (runtimeEntries memoryMap) front attrs status
          entry.physicalStart := by
        refine ⟨?_, le_refl _, Nat.le_add_right _ _, runtime, room, ran⟩
        rw [ahead_start]
        exact state
      have first : ahead entry entry.physicalStart :: runtimeEntries memoryMap =
          entry :: runtimeEntries memoryMap := by rw [ahead_start]
      rw [← first]
      apply coverEntry_filled validEntry bounded start
        (lt_of_lt_of_le enough (Nat.le_add_left _ _)) (fun _ => rfl)
      intro front attrs status current covering ended
      have ends := covering.ends validEntry
      dsimp only
      rw [next]
      split
      · rename_i finished
        have empty : ending (ahead entry current) ≤ (ahead entry current).physicalStart := by
          rw [ends]
          exact finished.ge
        exact Filled.drop empty (ih validRest (covering.ahead.tail empty) covering.runtime
          covering.room covering.ran)
      · rename_i missing
        -- No entry of the table is left, so the rest of the descriptor goes to its end.
        have none : attrs = [] := ended.resolve_right missing
        have before : current < ending entry := lt_of_le_of_ne covering.high missing
        subst none
        by_cases full : total ≤ (front ++ []).length
        · have refused : ocExpandAttributeWrite total none entry current (front ++ []) = none :=
            if_pos full
          simp only [refused]
          exact Filled.full covering.ahead (ends.symm ▸ before) (fun _ member => by cases member) full
        · have written : ocExpandAttributeWrite total none entry current (front ++ []) =
              some (front ++ [] ++ [newAttribute entry current (ending entry)]) := by
            rw [ocExpandAttributeWrite, if_neg full, next]
          obtain ⟨validPiece, pieceEnds⟩ := @newAttribute_spec entry current (ending entry)
            covering.aligned (efiPageSize_dvd_ending validEntry.aligned) before bounded
          have pieceStart : (newAttribute entry current (ending entry)).physicalStart = current := rfl
          simp only [written]
          generalize newAttribute entry current (ending entry) = piece at *
          have empty : ending (ahead entry (ending piece)) ≤
              (ahead entry (ending piece)).physicalStart := by
            rw [pieceEnds, ending_ahead validEntry.aligned
              (efiPageSize_dvd_ending validEntry.aligned) (le_refl _)]
            exact le_refl _
          have behind : ∀ other ∈ ([] : List MemoryDescriptor), ending piece ≤ other.physicalStart := by
            intro other member
            cases member
          have further := covering.write validEntry validPiece pieceStart pieceEnds.le behind
            (Nat.lt_of_not_le full)
          apply Filled.write covering.ahead validPiece pieceStart (ends.symm ▸ pieceEnds.le) behind
          · exact .inl (pieceEnds.trans ends.symm)
          · rw [ahead_ahead validEntry.aligned covering.aligned covering.high]
            have rest := ih validRest (further.ahead.tail empty) further.runtime further.room further.ran
            have longer : (front ++ [piece]).length = front.length + 1 := length_append
            rw [append_nil, longer] at rest
            rw [append_nil]
            exact Filled.drop empty rest
    · rename_i other
      rw [if_neg other] at valid state
      exact ih valid state runtime room ran

theorem ocExpandAttributesByMap_filled {memoryMap table : List MemoryDescriptor}
    (valid : ∀ desc ∈ runtimeEntries memoryMap, Valid desc)
    (state : Ahead (runtimeEntries memoryMap) table)
    (runtime : ∀ attr ∈ table, isRuntime attr.type = true) (room : table.length ≤ total) :
    ∃ status final, ocExpandAttributesByMap (total + 1) total memoryMap table = some (status, final) ∧
      Fills (runtimeEntries memoryMap) table status final ∧ (status = .outOfResources ↔
        total < table.length + gapCount (runtimeEntries memoryMap) table) := by
  have started : EfiStatus.notFound ≠ EfiStatus.outOfResources := by decide
  have filled : Filled total [] (runtimeEntries memoryMap) table _ :=
    expandEntries_filled valid state runtime room started (Nat.lt_succ_self _)
  exact filled

end Walk

end OpenCore.AttributesExpand
