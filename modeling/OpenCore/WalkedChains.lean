import OpenCore.SlotChain
import OpenCore.FixupWalk
import Mathlib.Data.Nat.Bitwise

/-!
What the walker reaches. The link of a slot is read after the visitor was
called on it, so a walk follows the chains of an image exactly when the visitor
leaves the links of the slots as they were.
-/

namespace OpenCore.WalkedChains

open Base ByteBuffer KernelCollection SlotChain FixupWalk List

def linkAt (buffer : Bytes) (stride address : Nat) : Nat :=
  (Rebase.decode (load buffer 8 address)).next * stride

def pageBase (record : Bytes) (page : Nat) : Nat :=
  load record 8 8 + page * load record 2 4

structure PageSlots (buffer record : Bytes) (stride page : Nat) (slots : List Nat) : Prop where
  head : load record 2 (startsHeaderSize + 2 * page) = slots.headD startNone
  plain : slots ≠ [] → slots.headD startNone &&& startMulti = 0
  inside : ∀ offset ∈ slots, offset + 8 ≤ load record 2 4
  buffered : slots ≠ [] → pageBase record page + load record 2 4 ≤ buffer.length
  apart : slots.Pairwise fun left right => left + 8 ≤ right
  linked : Linked (fun offset => linkAt buffer stride (pageBase record page + offset)) slots

structure SegmentChains (buffer record : Bytes) (chains : Nat → List Nat) : Prop where
  recorded : load record 4 0 ≤ record.length
  declared : startsHeaderSize + 2 * load record 2 20 ≤ load record 4 0
  pageSize : 8 ≤ load record 2 4
  pages : ∃ stride, pointerStride (load record 2 6) = some stride ∧
    ∀ page, page < load record 2 20 → PageSlots buffer record stride page (chains page)

def pageVisits (segment : Nat) (record : Bytes) (chains : Nat → List Nat) (page : Nat) :
    List Visit :=
  (chains page).map fun offset => ⟨segment, page, pageBase record page + offset⟩

def segmentVisits (segment : Nat) (record : Bytes) (chains : Nat → List Nat) : List Visit :=
  (List.range (load record 2 20)).flatMap (pageVisits segment record chains)

def listedVisits (blob : Bytes) (chains : Nat → Nat → List Nat) (segment : Nat) : List Visit :=
  if load blob 4 (imageHeaderSize + 4 * segment) = 0 then []
  else segmentVisits segment (segmentRecord blob segment) (chains segment)

def imageVisits (blob : Bytes) (chains : Nat → Nat → List Nat) : List Visit :=
  (List.range (load blob 4 0)).flatMap (listedVisits blob chains)

def SlotsApart (visits : List Visit) : Prop :=
  visits.Pairwise fun left right => Apart left.slot 8 right.slot 8

structure ImageChains (buffer blob : Bytes) (chains : Nat → Nat → List Nat) : Prop where
  bound : buffer.length < u64
  header : imageHeaderSize + 4 * load blob 4 0 ≤ blob.length
  segments : ∀ segment, segment < load blob 4 0 →
    load blob 4 (imageHeaderSize + 4 * segment) ≠ 0 →
    SegmentChains buffer (segmentRecord blob segment) (chains segment)
  apart : SlotsApart (imageVisits blob chains)

section Kept
variable {σ : Type}

/-- The visitor leaves the link of every slot that can be part of a chain: a
link to a slot behind this one stays, and a last slot gets no link that stays
in the address space. -/
def KeepsLinks (visitor : Option (Visitor σ)) : Prop :=
  ∀ (context : σ) (slot value stride : Nat), value < u64 → stride = 1 ∨ stride = 4 →
    (8 ≤ (Rebase.decode value).next * stride →
      slot + (Rebase.decode value).next * stride + 8 < u64 →
      (Rebase.decode (callVisitor visitor context slot value).2).next =
        (Rebase.decode value).next) ∧
    ((Rebase.decode value).next = 0 →
      slot + (Rebase.decode (callVisitor visitor context slot value).2).next * stride + 8 < u64 →
      (Rebase.decode (callVisitor visitor context slot value).2).next = 0)

/-- The walk of a well-formed image visits the slots of its chains, in order. -/
def WalksChains (visitor : Option (Visitor σ)) : Prop :=
  ∀ (buffer blob : Bytes) (context : σ) (chains : Nat → Nat → List Nat),
    ImageChains buffer blob chains →
    ∃ walk, kcWalkChainedFixupsInImage visitor buffer blob context = some walk ∧
      walk.visits = imageVisits blob chains

end Kept

theorem decode_next_stored (value : Nat) :
    (Rebase.decode (value % 256 ^ 8)).next = (Rebase.decode value).next := by
  simp only [Rebase.decode]
  omega

/-- An offset below the `START_MULTI` bit does not have it. -/
theorem and_startMulti {start : Nat} (low : start < startMulti) : start &&& startMulti = 0 := by
  have power : startMulti = 2 ^ 15 := rfl
  rw [power] at low ⊢
  rw [Nat.and_two_pow, Nat.testBit_lt_two_pow low]
  rfl

section Reach
variable {σ : Type} (visitor : Option (Visitor σ))

/-- A walk that went on from `before` by just these calls and changed no word
away from their slots. -/
structure Covers (before after : Walk σ) (calls : List Visit) : Prop where
  length : after.buffer.length = before.buffer.length
  visits : after.visits = before.visits ++ calls
  frame : ∀ address, (∀ visit ∈ calls, Apart visit.slot 8 address 8) →
    load after.buffer 8 address = load before.buffer 8 address

theorem Covers.refl (walk : Walk σ) : Covers walk walk [] :=
  ⟨rfl, by simp, fun _ _ => rfl⟩

theorem Covers.trans {before middle after : Walk σ} {first second : List Visit}
    (covered : Covers before middle first) (rest : Covers middle after second) :
    Covers before after (first ++ second) := by
  refine ⟨rest.length.trans covered.length, ?_, ?_⟩
  · rw [rest.visits, covered.visits, append_assoc]
  · intro address apart
    rw [rest.frame address fun visit member => apart visit (by simp [member])]
    exact covered.frame address fun visit member => apart visit (by simp [member])

/-- A loop whose passes cover their own slots covers all of them, as long as a
pass is still ready after others have written to slots apart from its own. -/
theorem foldlM_covers (step : Walk σ → Nat → Option (Walk σ)) (Ready : Bytes → Nat → Prop)
    (slotsOf : Nat → List Visit) (indices : List Nat) (walk : Walk σ)
    (ready : ∀ index ∈ indices, Ready walk.buffer index)
    (apart : SlotsApart (indices.flatMap slotsOf))
    (stable : ∀ before after index, Ready before index → after.length = before.length →
      (∀ visit ∈ slotsOf index, load after 8 visit.slot = load before 8 visit.slot) →
      Ready after index)
    (pass : ∀ current index, index ∈ indices → Ready current.buffer index →
      SlotsApart (slotsOf index) →
      ∃ after, step current index = some after ∧ Covers current after (slotsOf index)) :
    ∃ after, indices.foldlM step walk = some after ∧
      Covers walk after (indices.flatMap slotsOf) := by
  induction indices generalizing walk with
  | nil => exact ⟨walk, rfl, Covers.refl walk⟩
  | cons index rest ih =>
    rw [flatMap_cons] at apart
    obtain ⟨own, later, across⟩ := pairwise_append.mp apart
    obtain ⟨middle, stepped, covered⟩ := pass walk index (by simp) (ready index (by simp)) own
    obtain ⟨after, ran, rested⟩ := ih middle
      (by
        intro other member
        apply stable walk.buffer middle.buffer other (ready other (by simp [member]))
          covered.length
        intro visit listed
        apply covered.frame
        intro earlier called
        exact across earlier called visit (mem_flatMap.mpr ⟨other, member, listed⟩))
      later
      (fun current other member => pass current other (by simp [member]))
    refine ⟨after, by rw [foldlM_cons, stepped]; exact ran, ?_⟩
    rw [flatMap_cons]
    exact covered.trans rested

theorem visitSlot_covers (segment page slot : Nat) (walk : Walk σ)
    (inside : slot + 8 ≤ walk.buffer.length) :
    ∃ visited, visitSlot visitor segment page slot walk = some (visited, (Rebase.decode
          (callVisitor visitor walk.context slot (load walk.buffer 8 slot)).2).next) ∧
      Covers walk visited [⟨segment, page, slot⟩] := by
  obtain ⟨context, written, called, stepped⟩ := visitSlot_eq visitor segment page slot walk inside
  rw [load_store_same _ _ _ _ inside, decode_next_stored] at stepped
  refine ⟨_, by rw [called]; exact stepped, store_length _ _ _ _, rfl, ?_⟩
  intro address away
  have apart := away ⟨segment, page, slot⟩ (by simp)
  exact load_store_apart _ _ _ _ _ _ inside apart

-- Induction along the chain. The link that is followed is the one of the
-- rewritten slot, which the visitor has kept.
theorem walkChain_covers (keeps : KeepsLinks visitor)
    (segment page stride pageEnd iters slot : Nat) (rest : List Nat)
    (walk : Walk σ) (format : stride = 1 ∨ stride = 4)
    (inside : ∀ address ∈ slot :: rest, address + 8 ≤ pageEnd)
    (buffered : pageEnd ≤ walk.buffer.length) (bound : walk.buffer.length < u64)
    (apart : (slot :: rest).Pairwise fun left right => left + 8 ≤ right)
    (linked : Linked (linkAt walk.buffer stride) (slot :: rest))
    (enough : rest.length < iters) :
    ∃ after, walkChain visitor segment page stride pageEnd iters slot walk = some after ∧
      Covers walk after ((slot :: rest).map fun address => ⟨segment, page, address⟩) := by
  induction rest generalizing slot iters walk with
  | nil =>
    cases iters with
    | zero => omega
    | succ iters =>
      have room := inside slot (by simp)
      obtain ⟨visited, stepped, covered⟩ :=
        visitSlot_covers visitor segment page slot walk (by omega)
      have kept := (keeps walk.context slot (load walk.buffer 8 slot) stride
        (load_lt _ 8 _) format).2
      generalize (Rebase.decode
        (callVisitor visitor walk.context slot (load walk.buffer 8 slot)).2).next = link at *
      have final : (Rebase.decode (load walk.buffer 8 slot)).next = 0 := by
        have zero : linkAt walk.buffer stride slot = 0 := linked
        rcases Nat.mul_eq_zero.mp zero with last | none
        · exact last
        · omega
      have ends : nextSlot link stride slot pageEnd = none := by
        cases target : nextSlot link stride slot pageEnd with
        | none => rfl
        | some next =>
          obtain ⟨more, targetEq, below⟩ := nextSlot_eq_some target
          exact absurd (kept final (by omega)) more
      refine ⟨visited, ?_, covered⟩
      rw [walkChain, stepped, Option.bind_some]
      simp only [ends]
  | cons next rest ih =>
    cases iters with
    | zero => omega
    | succ iters =>
      have room := inside slot (by simp)
      have nextRoom := inside next (by simp)
      obtain ⟨ascends, delta, tail⟩ := linked
      obtain ⟨above, apartTail⟩ := pairwise_cons.mp apart
      have gap := above next (by simp)
      obtain ⟨visited, stepped, first⟩ := visitSlot_covers visitor segment page slot walk (by omega)
      have kept := (keeps walk.context slot (load walk.buffer 8 slot) stride
        (load_lt _ 8 _) format).1
      generalize (Rebase.decode
        (callVisitor visitor walk.context slot (load walk.buffer 8 slot)).2).next = link at *
      simp only [linkAt] at delta
      have same : link = (Rebase.decode (load walk.buffer 8 slot)).next :=
        kept (by omega) (by omega)
      rw [← same] at delta
      have more : link ≠ 0 := by
        intro none
        rw [none, zero_mul] at delta
        omega
      have target : slot + link * stride = next := by omega
      have follows : nextSlot link stride slot pageEnd = some next := by
        rw [nextSlot_of_linked more (by omega) (by omega), target]
      obtain ⟨after, ran, covered⟩ := ih iters next visited
        (fun address member => inside address (by simp [member]))
        (by rw [first.length]; exact buffered) (by rw [first.length]; exact bound) apartTail
        (by
          apply tail.congr
          intro address member
          have unchanged := first.frame address (by
            intro visit called
            rw [mem_singleton.mp called]
            exact Or.inl (above address member))
          simp only [linkAt, unchanged])
        (by simpa using enough)
      refine ⟨after, ?_, first.trans covered⟩
      rw [walkChain, stepped, Option.bind_some]
      simp only [follows]
      exact ran

section Pages
variable {buffer record : Bytes} {stride page : Nat} {slots : List Nat}

theorem PageSlots.stable {after : Bytes} (ready : PageSlots buffer record stride page slots)
    (length : after.length = buffer.length)
    (same : ∀ offset ∈ slots, load after 8 (pageBase record page + offset) =
      load buffer 8 (pageBase record page + offset)) :
    PageSlots after record stride page slots := by
  refine ⟨ready.head, ready.plain, ready.inside, ?_, ready.apart, ?_⟩
  · intro nonempty
    rw [length]
    exact ready.buffered nonempty
  · apply ready.linked.congr
    intro offset member
    simp only [linkAt, same offset member]

theorem walkPage_eq (segment slot : Nat) (rest : List Nat) (walk : Walk σ)
    (recorded : startsHeaderSize + 2 * page + 2 ≤ record.length) (bound : walk.buffer.length < u64)
    (ready : PageSlots walk.buffer record stride page (slot :: rest)) :
    walkPage visitor segment record (load record 2 4) (load record 8 8) stride walk page =
      walkChain visitor segment page stride (pageBase record page + load record 2 4)
        (load record 2 4 / 8) (pageBase record page + slot) walk := by
  have head := ready.head
  have plain := ready.plain (by simp)
  rw [headD_cons] at head plain
  have first := firstSlot_of_inside plain (ready.inside slot (by simp))
    (ready.buffered (by simp)) bound
  rw [walkPage, load?_eq_some _ _ _ recorded, Option.bind_some, head, first]
  rfl

theorem walkPage_covers (keeps : KeepsLinks visitor) (segment : Nat) (chains : Nat → List Nat)
    (walk : Walk σ) (format : stride = 1 ∨ stride = 4)
    (recorded : startsHeaderSize + 2 * page + 2 ≤ record.length) (bound : walk.buffer.length < u64)
    (ready : PageSlots walk.buffer record stride page (chains page)) :
    ∃ after, walkPage visitor segment record (load record 2 4) (load record 8 8) stride walk page =
        some after ∧ Covers walk after (pageVisits segment record chains page) := by
  unfold pageVisits
  cases slotsEq : chains page with
  | nil =>
    have head := ready.head
    rw [slotsEq, headD_nil] at head
    refine ⟨walk, ?_, Covers.refl walk⟩
    rw [walkPage, load?_eq_some _ _ _ recorded, Option.bind_some, head]
    simp [firstSlot]
  | cons slot rest =>
    rw [slotsEq] at ready
    have filled := length_mul_le 8 0 (load record 2 4) (slot :: rest) (by simp) ready.apart
      (fun offset member => ⟨Nat.zero_le _, ready.inside offset member⟩)
    rw [length_cons] at filled
    rw [walkPage_eq visitor segment slot rest walk recorded bound ready]
    have covered := walkChain_covers visitor keeps segment page stride
      (pageBase record page + load record 2 4) (load record 2 4 / 8)
      (pageBase record page + slot) (rest.map fun offset => pageBase record page + offset) walk
      format
      (by
        intro address member
        have shifted : address ∈ (slot :: rest).map fun offset => pageBase record page + offset :=
          member
        obtain ⟨offset, listed, rfl⟩ := mem_map.mp shifted
        have room := ready.inside offset listed
        omega)
      (ready.buffered (by simp)) bound
      (by
        have shifted : ((slot :: rest).map fun offset => pageBase record page + offset).Pairwise
            fun left right => left + 8 ≤ right :=
          pairwise_map.mpr (ready.apart.imp fun gap => by omega)
        exact shifted)
      (Linked.shift _ _ (slot :: rest) ready.linked)
      (by rw [length_map]; omega)
    simpa [map_map, Function.comp_def] using covered

end Pages

variable {chains : Nat → List Nat}

theorem SegmentChains.pages_empty {buffer record : Bytes}
    (ready : SegmentChains buffer record chains)
    (outside : buffer.length < load record 2 4 ∨ buffer.length ≤ load record 8 8)
    (page : Nat) (counted : page < load record 2 20) : chains page = [] := by
  obtain ⟨stride, _, pages⟩ := ready.pages
  by_contra nonempty
  have buffered := (pages page counted).buffered nonempty
  have large := ready.pageSize
  unfold pageBase at buffered
  omega

theorem SegmentChains.stable {buffer after record : Bytes} {segment : Nat} (ready : SegmentChains buffer record chains)
    (length : after.length = buffer.length) (same : ∀ visit ∈ segmentVisits segment record chains,
      load after 8 visit.slot = load buffer 8 visit.slot) :
    SegmentChains after record chains := by
  obtain ⟨stride, format, pages⟩ := ready.pages
  refine ⟨ready.recorded, ready.declared, ready.pageSize, stride, format, ?_⟩
  intro page counted
  apply (pages page counted).stable length
  intro offset member
  exact same ⟨segment, page, pageBase record page + offset⟩
    (mem_flatMap.mpr ⟨page, mem_range.mpr counted, mem_map.mpr ⟨offset, member, rfl⟩⟩)

theorem kcWalkChainedFixupsInSegment_eq (segment : Nat) (record : Bytes)
    (chains : Nat → List Nat) (walk : Walk σ) (stride : Nat)
    (ready : SegmentChains walk.buffer record chains)
    (format : pointerStride (load record 2 6) = some stride)
    (pageFits : load record 2 4 ≤ walk.buffer.length)
    (starts : load record 8 8 < walk.buffer.length) :
    kcWalkChainedFixupsInSegment visitor segment record walk =
      (List.range (load record 2 20)).foldlM
        (walkPage visitor segment record (load record 2 4) (load record 8 8) stride) walk := by
  have recorded := ready.recorded
  have declared := ready.declared
  have large := ready.pageSize
  have headerSize := startsHeaderSize_val
  rw [kcWalkChainedFixupsInSegment, if_neg (by omega)]
  repeat rw [load?_eq_some _ _ _ (by omega)]
  simp only [Option.bind_some]
  rw [if_neg (by omega), if_neg (by omega), if_neg (by omega), if_neg (by omega), format]

theorem kcWalkChainedFixupsInSegment_covers (keeps : KeepsLinks visitor) (segment : Nat)
    (record : Bytes) (chains : Nat → List Nat) (walk : Walk σ) (bound : walk.buffer.length < u64)
    (ready : SegmentChains walk.buffer record chains)
    (apart : SlotsApart (segmentVisits segment record chains)) :
    ∃ after, kcWalkChainedFixupsInSegment visitor segment record walk = some after ∧
      Covers walk after (segmentVisits segment record chains) := by
  obtain ⟨stride, format, pages⟩ := ready.pages
  have recorded := ready.recorded
  have declared := ready.declared
  have large := ready.pageSize
  have headerSize := startsHeaderSize_val
  by_cases fits : load record 2 4 ≤ walk.buffer.length ∧ load record 8 8 < walk.buffer.length
  · rw [kcWalkChainedFixupsInSegment_eq visitor segment record chains walk stride ready format
      fits.1 fits.2]
    apply foldlM_covers _ (fun buffer page => buffer.length < u64 ∧
      PageSlots buffer record stride page (chains page)) _ _ walk
    · intro page member
      exact ⟨bound, pages page (mem_range.mp member)⟩
    · exact apart
    · intro before after page own length same
      refine ⟨by rw [length]; exact own.1, own.2.stable length ?_⟩
      intro offset member
      exact same _ (mem_map.mpr ⟨offset, member, rfl⟩)
    · intro current page member own _
      have counted := mem_range.mp member
      exact walkPage_covers visitor keeps segment chains current (pointerStride_cases format)
        (by omega) own.1 own.2
  · have empty := ready.pages_empty (by omega)
    have none : segmentVisits segment record chains = [] := by
      apply flatMap_eq_nil_iff.mpr
      intro page member
      simp [pageVisits, empty page (mem_range.mp member)]
    rw [none]
    refine ⟨walk, ?_, Covers.refl walk⟩
    rw [kcWalkChainedFixupsInSegment, if_neg (by omega)]
    repeat rw [load?_eq_some _ _ _ (by omega)]
    simp only [Option.bind_some]
    rw [if_neg (by omega), if_neg (by omega)]
    split
    · rfl
    · rw [if_pos (by omega)]

theorem walkSegment_eq (blob : Bytes) (chains : Nat → List Nat) (walk : Walk σ) (segment : Nat)
    (listed : imageHeaderSize + 4 * segment + 4 ≤ blob.length)
    (present : load blob 4 (imageHeaderSize + 4 * segment) ≠ 0)
    (ready : SegmentChains walk.buffer (segmentRecord blob segment) chains) :
    walkSegment visitor blob walk segment =
      kcWalkChainedFixupsInSegment visitor segment (segmentRecord blob segment) walk := by
  have recorded := ready.recorded
  have declared := ready.declared
  have headerSize := startsHeaderSize_val
  have room : (segmentRecord blob segment).length =
      blob.length - load blob 4 (imageHeaderSize + 4 * segment) := length_drop
  rw [walkSegment, load?_eq_some _ _ _ listed, Option.bind_some, if_neg present, if_neg (by omega)]
  rfl

theorem walkSegment_covers (keeps : KeepsLinks visitor) (blob : Bytes)
    (chains : Nat → Nat → List Nat) (walk : Walk σ) (segment : Nat)
    (bound : walk.buffer.length < u64) (listed : imageHeaderSize + 4 * segment + 4 ≤ blob.length)
    (ready : load blob 4 (imageHeaderSize + 4 * segment) ≠ 0 →
      SegmentChains walk.buffer (segmentRecord blob segment) (chains segment))
    (apart : SlotsApart (listedVisits blob chains segment)) :
    ∃ after, walkSegment visitor blob walk segment = some after ∧
      Covers walk after (listedVisits blob chains segment) := by
  unfold listedVisits at *
  by_cases absent : load blob 4 (imageHeaderSize + 4 * segment) = 0
  · rw [if_pos absent]
    refine ⟨walk, ?_, Covers.refl walk⟩
    rw [walkSegment, load?_eq_some _ _ _ listed, Option.bind_some, if_pos absent]
  · rw [if_neg absent] at *
    rw [walkSegment_eq visitor blob (chains segment) walk segment listed absent (ready absent)]
    exact kcWalkChainedFixupsInSegment_covers visitor keeps segment _ (chains segment) walk bound
      (ready absent) apart

theorem kcWalkChainedFixupsInImage_eq (buffer blob : Bytes) (context : σ)
    (header : imageHeaderSize + 4 * load blob 4 0 ≤ blob.length) :
    kcWalkChainedFixupsInImage visitor buffer blob context =
      (List.range (load blob 4 0)).foldlM (walkSegment visitor blob) ⟨buffer, context, 0, []⟩ := by
  have headerSize := imageHeaderSize_val
  rw [kcWalkChainedFixupsInImage, walkSegments, if_neg (by omega),
    load?_eq_some _ _ _ (by omega), Option.bind_some, if_neg (by omega)]

theorem keepsLinks_walksChains (keeps : KeepsLinks visitor) : WalksChains visitor := by
  intro buffer blob context chains image
  have header := image.header
  rw [kcWalkChainedFixupsInImage_eq visitor buffer blob context image.header]
  obtain ⟨after, ran, covered⟩ := foldlM_covers (walkSegment visitor blob)
    (fun current segment => current.length < u64 ∧
      (load blob 4 (imageHeaderSize + 4 * segment) ≠ 0 →
        SegmentChains current (segmentRecord blob segment) (chains segment)))
    (listedVisits blob chains) (List.range (load blob 4 0)) ⟨buffer, context, 0, []⟩
    (fun segment member => ⟨image.bound, image.segments segment (mem_range.mp member)⟩)
    image.apart
    (by
      intro before current segment own length same
      refine ⟨by rw [length]; exact own.1, ?_⟩
      intro present
      apply (own.2 present).stable length
      intro visit member
      exact same visit (by rw [listedVisits, if_neg present]; exact member))
    (by
      intro current segment member own apart
      have counted := mem_range.mp member
      exact walkSegment_covers visitor keeps blob chains current segment own.1
        (by omega) own.2 apart)
  refine ⟨after, ran, ?_⟩
  rw [covered.visits]
  rfl

end Reach

end OpenCore.WalkedChains
