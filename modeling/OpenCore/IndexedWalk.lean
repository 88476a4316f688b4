import OpenCore.FixupChains
import OpenCore.WalkProbe

/-!
The walk of the chains that indexing builds. The kext segment is loaded at the
offset its table gives; walking the image then visits the relocation slots.
-/

namespace OpenCore.IndexedWalk

open Base ByteBuffer KernelCollection FixupChains FixupWalk WalkedChains WalkProbe List

section Indexed
variable {σ : Type}

structure KextTable (table : StartsInSegment) : Prop where
  pageSize : table.pageSize = machoPageSize
  pointerFormat : table.pointerFormat = 11
  pageCount : table.pageCount = table.pageStart.length
  declared : startsHeaderSize + 2 * table.pageCount ≤ table.size

structure Records (record : Bytes) (table : StartsInSegment) : Prop where
  recorded : table.size ≤ record.length
  size : load record 4 0 = table.size
  pageSize : load record 2 4 = table.pageSize
  pointerFormat : load record 2 6 = table.pointerFormat
  segmentOffset : load record 8 8 = table.segmentOffset
  pageCount : load record 2 20 = table.pageCount
  pageStart : ∀ page, page < table.pageCount →
    load record 2 (startsHeaderSize + 2 * page) = table.pageStart.getD page startNone

structure LoadedSegment (ctx : Context) (buffer blob : Bytes) (segment : Nat) : Prop where
  bound : buffer.length < u64
  header : imageHeaderSize + 4 * load blob 4 0 ≤ blob.length
  listed : segment < load blob 4 0
  present : load blob 4 (imageHeaderSize + 4 * segment) ≠ 0
  alone : ∀ other, other < load blob 4 0 → other ≠ segment →
    load blob 4 (imageHeaderSize + 4 * other) = 0
  record : Records (segmentRecord blob segment) ctx.kextsFixupChains
  room : ctx.kextsFixupChains.segmentOffset +
    ctx.kextsFixupChains.pageStart.length * machoPageSize ≤ buffer.length
  bytes : ∀ index, index < ctx.kextsFixupChains.pageStart.length * machoPageSize →
    byteAt buffer (ctx.kextsFixupChains.segmentOffset + index) =
      byteAt ctx.prelinked (ctx.kextsFileOffset + index)

def WalksIndexed (visitor : Option (Visitor σ)) : Prop :=
  ∀ (ctx : Context) (image : KextImage) (relocations : List RelocationInfo)
    (earlier : Nat → List Nat), KextTable ctx.kextsFixupChains →
    Indexable ctx image relocations earlier →
    ∀ (buffer blob : Bytes) (segment : Nat) (visitorContext : σ),
      LoadedSegment (kcKextIndexFixups ctx image) buffer blob segment →
      ∃ walk, kcWalkChainedFixupsInImage visitor buffer blob visitorContext = some walk ∧
        ∀ slot, slot ∈ walk.visits.map Visit.slot ↔
          ∃ page offset, page < ctx.kextsFixupChains.pageStart.length ∧
            (offset ∈ earlier page ∨ ∃ reloc ∈ relocations,
              newFixupPage ctx reloc image.firstSegmentAddress = page ∧
              newFixupPageOffset ctx reloc image.firstSegmentAddress = offset) ∧
            slot = (kcKextIndexFixups ctx image).kextsFixupChains.segmentOffset +
              page * machoPageSize + offset

/-- Indexing writes to no field of the table but the entries of `PageStart`. -/
theorem convert_table (ctx : Context) (reloc : RelocationInfo) (relocBase : Nat)
    (table : KextTable ctx.kextsFixupChains) :
    KextTable (internalKcConvertRelocToFixup ctx reloc relocBase).kextsFixupChains := by
  obtain ⟨pageSize, pointerFormat, pageCount, declared⟩ := table
  unfold internalKcConvertRelocToFixup
  simp only
  split
  · exact ⟨pageSize, pointerFormat,
      by simpa [Context.withFixup, Context.withPageStart] using pageCount, declared⟩
  · split
    · exact ⟨pageSize, pointerFormat,
        by simpa [Context.withFixup, Context.withPageStart] using pageCount, declared⟩
    · exact ⟨pageSize, pointerFormat, pageCount, declared⟩

theorem convertRelocations_table (relocations : List RelocationInfo) (ctx : Context)
    (relocBase : Nat) (table : KextTable ctx.kextsFixupChains) :
    KextTable (convertRelocations ctx relocBase relocations).kextsFixupChains := by
  induction relocations generalizing ctx with
  | nil => exact table
  | cons reloc rest ih => exact ih _ (convert_table ctx reloc relocBase table)

section Layout
variable {ctx : Context} {buffer blob : Bytes} {segment : Nat}
variable (table : KextTable ctx.kextsFixupChains)
variable (loaded : LoadedSegment ctx buffer blob segment)
variable {slots : Nat → List Nat}
include table loaded

theorem LoadedSegment.pageBase_eq (page : Nat) :
    pageBase (segmentRecord blob segment) page =
      ctx.kextsFixupChains.segmentOffset + page * machoPageSize := by
  rw [pageBase, loaded.record.segmentOffset, loaded.record.pageSize, table.pageSize]

theorem LoadedSegment.pageSlots {page : Nat} {slots : List Nat}
    (counted : page < ctx.kextsFixupChains.pageStart.length) (chain : PageChain ctx page slots) :
    PageSlots buffer (segmentRecord blob segment) 1 page slots := by
  have base := loaded.pageBase_eq table page
  have pageSize : load (segmentRecord blob segment) 2 4 = machoPageSize :=
    loaded.record.pageSize.trans table.pageSize
  have room := loaded.room
  have whole : (page + 1) * machoPageSize ≤
      ctx.kextsFixupChains.pageStart.length * machoPageSize := Nat.mul_le_mul_right _ counted
  rw [Nat.succ_mul] at whole
  refine ⟨?_, ?_, ?_, ?_, chain.apart, ?_⟩
  · rw [loaded.record.pageStart page (by rw [table.pageCount]; exact counted)]
    exact chain.head
  · intro nonempty
    cases slots with
    | nil => exact absurd rfl nonempty
    | cons first rest =>
      have inside := chain.inside first (by simp)
      apply and_startMulti
      simp only [startMulti, machoPageSize_val, headD_cons] at *
      omega
  · rw [pageSize]
    exact chain.inside
  · intro _
    rw [base, pageSize]
    omega
  · apply chain.linked.congr
    intro offset member
    have inside := chain.inside offset member
    have same : load buffer 8 (pageBase (segmentRecord blob segment) page + offset) =
        load ctx.prelinked 8 (slotAddress ctx page offset) := by
      apply load_congr
      intro index bound
      have copied := loaded.bytes (page * machoPageSize + offset + index) (by omega)
      simpa only [base, slotAddress, add_assoc] using copied
    simp only [linkAt, same, mul_one]
    rfl

variable
  (chains : ∀ page, page < ctx.kextsFixupChains.pageStart.length → PageChain ctx page (slots page))
include chains

theorem LoadedSegment.segmentChains :
    SegmentChains buffer (segmentRecord blob segment) slots := by
  have record := loaded.record
  refine ⟨by rw [record.size]; exact record.recorded, ?_, ?_, 1, ?_, ?_⟩
  · rw [record.pageCount, record.size]
    exact table.declared
  · rw [record.pageSize, table.pageSize]
    decide
  · rw [record.pointerFormat, table.pointerFormat]
    rfl
  · intro page counted
    rw [record.pageCount, table.pageCount] at counted
    exact loaded.pageSlots table counted (chains page counted)

omit chains in
theorem LoadedSegment.mem_visits (slots : Nat → List Nat) (visit : Visit) :
    visit ∈ imageVisits blob (fun _ => slots) ↔
      ∃ page offset, page < ctx.kextsFixupChains.pageStart.length ∧ offset ∈ slots page ∧
        visit = ⟨segment, page,
          ctx.kextsFixupChains.segmentOffset + page * machoPageSize + offset⟩ := by
  have record := loaded.record
  have count : load (segmentRecord blob segment) 2 20 =
      ctx.kextsFixupChains.pageStart.length := record.pageCount.trans table.pageCount
  constructor
  · intro member
    obtain ⟨other, counted, member⟩ := mem_flatMap.mp member
    unfold listedVisits at member
    split at member
    · cases member
    · rename_i present
      by_cases same : other = segment
      · subst same
        obtain ⟨page, bound, member⟩ := mem_flatMap.mp member
        obtain ⟨offset, listed, rfl⟩ := mem_map.mp member
        exact ⟨page, offset, by rw [← count]; exact mem_range.mp bound, listed,
          by rw [loaded.pageBase_eq table page]⟩
      · exact absurd (loaded.alone other (mem_range.mp counted) same) present
  · rintro ⟨page, offset, bound, listed, rfl⟩
    apply mem_flatMap.mpr
    refine ⟨segment, mem_range.mpr loaded.listed, ?_⟩
    rw [listedVisits, if_neg loaded.present]
    apply mem_flatMap.mpr
    refine ⟨page, mem_range.mpr (by rw [count]; exact bound), ?_⟩
    exact mem_map.mpr ⟨offset, listed, by rw [loaded.pageBase_eq table page]⟩

theorem LoadedSegment.segment_apart :
    SlotsApart (segmentVisits segment (segmentRecord blob segment) slots) := by
  have count : load (segmentRecord blob segment) 2 20 =
      ctx.kextsFixupChains.pageStart.length := loaded.record.pageCount.trans table.pageCount
  apply pairwise_flatMap.mpr
  rw [count]
  constructor
  · intro page member
    apply pairwise_map.mpr
    exact (chains page (mem_range.mp member)).apart.imp fun gap =>
      Or.inl (by simp only; omega)
  · apply List.Pairwise.imp_of_mem _ pairwise_lt_range
    intro left right leftMember rightMember ordered visit member visit' member'
    obtain ⟨offset, listed, rfl⟩ := mem_map.mp member
    obtain ⟨offset', listed', rfl⟩ := mem_map.mp member'
    have inside := (chains left (mem_range.mp leftMember)).inside offset listed
    have whole : (left + 1) * machoPageSize ≤ right * machoPageSize :=
      Nat.mul_le_mul_right _ ordered
    rw [Nat.succ_mul] at whole
    simp only [loaded.pageBase_eq table, Apart]
    omega

theorem LoadedSegment.image :
    ImageChains buffer blob (fun _ => slots) := by
  have only : ∀ other, other < load blob 4 0 →
      load blob 4 (imageHeaderSize + 4 * other) ≠ 0 → other = segment := by
    intro other counted present
    by_contra different
    exact present (loaded.alone other counted different)
  refine ⟨loaded.bound, loaded.header, ?_, ?_⟩
  · intro other counted present
    have same := only other counted present
    subst same
    exact loaded.segmentChains table chains
  · apply pairwise_flatMap.mpr
    constructor
    · intro other member
      unfold listedVisits
      split
      · exact List.Pairwise.nil
      · rename_i present
        have same := only other (mem_range.mp member) present
        subst same
        exact loaded.segment_apart table chains
    · apply List.Pairwise.imp_of_mem _ pairwise_lt_range
      intro left right leftMember rightMember ordered visit member visit' member'
      unfold listedVisits at member member'
      split at member
      · cases member
      · rename_i leftPresent
        split at member'
        · cases member'
        · rename_i rightPresent
          have leftSame := only left (mem_range.mp leftMember) leftPresent
          have rightSame := only right (mem_range.mp rightMember) rightPresent
          omega

end Layout

theorem walksChains_walksIndexed {visitor : Option (Visitor σ)} (walks : WalksChains visitor) :
    WalksIndexed visitor := by
  intro ctx image relocations earlier table indexable buffer blob segment visitorContext loaded
  obtain ⟨later, run⟩ := kcKextIndexFixups_reindexed indexable
  have tableLength : (kcKextIndexFixups ctx image).kextsFixupChains.pageStart.length =
      ctx.kextsFixupChains.pageStart.length := run.table
  have tableAfter : KextTable (kcKextIndexFixups ctx image).kextsFixupChains := by
    rw [kcKextIndexFixups_eq indexable.listed]
    exact convertRelocations_table relocations _ _ table
  have chains : ∀ page, page < (kcKextIndexFixups ctx image).kextsFixupChains.pageStart.length →
      PageChain (kcKextIndexFixups ctx image) page (later page) := by
    intro page counted
    exact run.chains page (tableLength ▸ counted)
  obtain ⟨walk, ran, visits⟩ := walks buffer blob visitorContext _
    (loaded.image tableAfter chains)
  refine ⟨walk, ran, ?_⟩
  intro slot
  rw [visits]
  constructor
  · intro member
    obtain ⟨visit, listed, rfl⟩ := mem_map.mp member
    obtain ⟨page, offset, counted, present, rfl⟩ :=
      (loaded.mem_visits tableAfter later visit).mp listed
    exact ⟨page, offset, tableLength ▸ counted, (run.members page offset).mp present, rfl⟩
  · rintro ⟨page, offset, counted, origin, rfl⟩
    apply mem_map.mpr
    refine ⟨_, (loaded.mem_visits tableAfter later _).mpr
      ⟨page, offset, tableLength ▸ counted, (run.members page offset).mpr origin, rfl⟩, rfl⟩

end Indexed

/-- The walker is safe with any visitor. It visits the chains of every image,
and after indexing the relocation slots, if and only if the visitor keeps the
links. -/
theorem kc_walk_chained_fixups_in_image_iff {σ : Type} (visitor : Option (Visitor σ)) :
    (Safe visitor ∧ WalksChains visitor ∧ WalksIndexed visitor) ↔ KeepsLinks visitor := by
  constructor
  · rintro ⟨_, walks, _⟩
    exact walksChains_keepsLinks walks
  · intro keeps
    have walks := keepsLinks_walksChains visitor keeps
    exact ⟨walk_safe visitor, walks, walksChains_walksIndexed walks⟩

def translatedBuffer : Bytes := encode 8 (8 * 0x8000000000000) ++ encode 8 0

def translateVisitor : Visitor Unit := fun _ _ value => ((), kcFixupValue value)

theorem translatedBuffer_single : SinglePage translatedBuffer 16 11 1 0 0 [8] := by
  refine ⟨by decide, by decide, by decide, by decide, rfl, by decide, by decide, ?_⟩
  exact ⟨by decide, by decide, (by decide : linkAt translatedBuffer 1 (0 + 8) = 0)⟩

theorem translating_walk_stops :
    ImageChains translatedBuffer (singlePageBlob 16 11 0 0) (fun _ _ => [0, 8]) ∧
    imageVisits (singlePageBlob 16 11 0 0) (fun _ _ => [0, 8]) = [⟨0, 0, 0⟩, ⟨0, 0, 8⟩] ∧
    (kcWalkChainedFixupsInImage (some translateVisitor) translatedBuffer
      (singlePageBlob 16 11 0 0) ()).map Walk.visits = some [⟨0, 0, 0⟩] ∧
    ¬ WalksChains (some translateVisitor) := by
  have image := translatedBuffer_single.image
  have visited : (kcWalkChainedFixupsInImage (some translateVisitor) translatedBuffer
      (singlePageBlob 16 11 0 0) ()).map Walk.visits = some [⟨0, 0, 0⟩] := by decide
  refine ⟨image, by decide, visited, ?_⟩
  intro walks
  obtain ⟨walk, ran, visits⟩ := walks _ _ () _ image
  rw [ran, Option.map_some, visits] at visited
  exact absurd visited (by decide)

end OpenCore.IndexedWalk
