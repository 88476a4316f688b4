import OpenCore.KernelCollection

/-!
The chained-fixup walker of `KernelCollection.c`. The buffer and the blob of
chained starts are untrusted. Every access is a checked load, so the walk has
no result exactly when it leaves the bytes it was given. The visits are a
record of the calls of the visitor, which may rewrite the slot it is called on.
-/

namespace OpenCore.FixupWalk

open Base ByteBuffer KernelCollection List

/-- `KC_CHAINED_FIXUP_VISIT`: from its context, the slot and the value in it to
the context and the value it leaves. -/
abbrev Visitor (σ : Type) := σ → Nat → Nat → σ × Nat

structure Visit where
  segment : Nat
  page : Nat
  slot : Nat
  deriving DecidableEq

structure Walk (σ : Type) where
  buffer : Bytes
  context : σ
  count : Nat
  visits : List Visit

def startsHeaderSize : Nat := 22
def imageHeaderSize : Nat := 4

theorem startsHeaderSize_val : startsHeaderSize = 22 := rfl
theorem imageHeaderSize_val : imageHeaderSize = 4 := rfl

section Model
variable {σ : Type} (visitor : Option (Visitor σ))

def callVisitor (context : σ) (slot value : Nat) : σ × Nat :=
  match visitor with
  | none => (context, value)
  | some visit => visit context slot value

def pointerStride (pointerFormat : Nat) : Option Nat :=
  if pointerFormat = 11 then some 1
  else if pointerFormat = 8 ∨ pointerFormat = 6 ∨ pointerFormat = 7 then some 4
  else none

def firstSlot (pageStart page pageSize segmentOffset bufferSize : Nat) : Option (Nat × Nat) :=
  if pageStart = startNone then none
  else if pageStart &&& startMulti ≠ 0 then none
  else
    (baseOverflowMulAdd u64 page pageSize segmentOffset).bind fun pageBase =>
      (baseOverflowAdd u64 pageBase pageSize).bind fun pageEnd =>
        if pageEnd > bufferSize then none
        else if pageStart ≥ pageSize then none
        else
          (baseOverflowAdd u64 (pageBase + pageStart) 8).bind fun slotEnd =>
            if slotEnd > pageEnd then none else some (pageBase + pageStart, pageEnd)

def nextSlot (next stride slot pageEnd : Nat) : Option Nat :=
  if next = 0 then none
  else
    (baseOverflowMul u64 next stride).bind fun nextStep =>
      (baseOverflowAdd u64 slot nextStep).bind fun nextSlotOffset =>
        (baseOverflowAdd u64 nextSlotOffset 8).bind fun slotEnd =>
          if slotEnd > pageEnd then none else some nextSlotOffset

/-- One pass of the inner loop up to `++Count`; the link is read after the call. -/
def visitSlot (segment page slot : Nat) (walk : Walk σ) : Option (Walk σ × Nat) :=
  (load? walk.buffer 8 slot).bind fun value =>
    let (context, written) := callVisitor visitor walk.context slot value
    let buffer := store walk.buffer 8 slot written
    (load? buffer 8 slot).map fun fixup =>
      ({ buffer := buffer
         context := context
         count := walk.count + 1
         visits := walk.visits ++ [⟨segment, page, slot⟩] }, (Rebase.decode fixup).next)

def walkChain (segment page stride pageEnd : Nat) : Nat → Nat → Walk σ → Option (Walk σ)
  | 0, _, walk => some walk
  | iters + 1, slot, walk =>
    (visitSlot visitor segment page slot walk).bind fun (visited, next) =>
      match nextSlot next stride slot pageEnd with
      | none => some visited
      | some slotOffset => walkChain segment page stride pageEnd iters slotOffset visited

def walkPage (segment : Nat) (record : Bytes) (pageSize segmentOffset stride : Nat)
    (walk : Walk σ) (page : Nat) : Option (Walk σ) :=
  (load? record 2 (startsHeaderSize + 2 * page)).bind fun pageStart =>
    match firstSlot pageStart page pageSize segmentOffset walk.buffer.length with
    | none => some walk
    | some (slot, pageEnd) =>
      walkChain visitor segment page stride pageEnd (pageSize / 8) slot walk

/-- `KcWalkChainedFixupsInSegment` on the `StartsSegSize` bytes of the record. -/
def kcWalkChainedFixupsInSegment (segment : Nat) (record : Bytes) (walk : Walk σ) :
    Option (Walk σ) :=
  if record.length < startsHeaderSize then some walk
  else
    (load? record 4 0).bind fun size =>
    (load? record 2 4).bind fun pageSize =>
    (load? record 2 20).bind fun pageCount =>
    (load? record 2 6).bind fun pointerFormat =>
    (load? record 8 8).bind fun segmentOffset =>
      if size > record.length ∨ size < startsHeaderSize then some walk
      else if pageCount > (size - startsHeaderSize) / 2 then some walk
      else if pageSize < 8 ∨ pageSize > walk.buffer.length then some walk
      else if segmentOffset ≥ walk.buffer.length then some walk
      else
        match pointerStride pointerFormat with
        | none => some walk
        | some stride =>
          (List.range pageCount).foldlM
            (walkPage visitor segment record pageSize segmentOffset stride) walk

def walkSegment (blob : Bytes) (walk : Walk σ) (segment : Nat) : Option (Walk σ) :=
  (load? blob 4 (imageHeaderSize + 4 * segment)).bind fun segOffset =>
    if segOffset = 0 then some walk
    else if segOffset ≥ blob.length then some walk
    else kcWalkChainedFixupsInSegment visitor segment (blob.drop segOffset) walk

def walkSegments (blob : Bytes) (walk : Walk σ) : Option (Walk σ) :=
  if blob.length < imageHeaderSize then some walk
  else
    (load? blob 4 0).bind fun numSegments =>
      if numSegments > (blob.length - imageHeaderSize) / 4 then some walk
      else (List.range numSegments).foldlM (walkSegment visitor blob) walk

def kcWalkChainedFixupsInImage (buffer blob : Bytes) (context : σ) : Option (Walk σ) :=
  walkSegments visitor blob { buffer := buffer, context := context, count := 0, visits := [] }

end Model

section Arithmetic

theorem pointerStride_cases {pointerFormat stride : Nat}
    (format : pointerStride pointerFormat = some stride) : stride = 1 ∨ stride = 4 := by
  unfold pointerStride at format
  split at format
  · exact Or.inl (Option.some.inj format).symm
  · split at format
    · exact Or.inr (Option.some.inj format).symm
    · cases format

theorem nextSlot_eq_some {next stride slot pageEnd target : Nat}
    (found : nextSlot next stride slot pageEnd = some target) :
    next ≠ 0 ∧ target = slot + next * stride ∧ target + 8 ≤ pageEnd := by
  unfold nextSlot at found
  split at found
  · cases found
  · rename_i linked
    obtain ⟨step, multiplied, found⟩ := Option.bind_eq_some_iff.mp found
    obtain ⟨offset, added, found⟩ := Option.bind_eq_some_iff.mp found
    obtain ⟨slotEnd, ended, found⟩ := Option.bind_eq_some_iff.mp found
    split at found
    · cases found
    · obtain ⟨stepEq, _⟩ := baseOverflowMul_eq_some multiplied
      obtain ⟨offsetEq, _⟩ := baseOverflowAdd_eq_some added
      obtain ⟨endEq, _⟩ := baseOverflowAdd_eq_some ended
      have same := Option.some.inj found
      exact ⟨linked, by omega, by omega⟩

theorem nextSlot_of_linked {next stride slot pageEnd : Nat} (linked : next ≠ 0)
    (inside : slot + next * stride + 8 ≤ pageEnd) (bound : pageEnd < u64) :
    nextSlot next stride slot pageEnd = some (slot + next * stride) := by
  have step : baseOverflowMul u64 next stride = some (next * stride) := if_pos (by omega)
  have offset : baseOverflowAdd u64 slot (next * stride) = some (slot + next * stride) :=
    if_pos (by omega)
  have slotEnd : baseOverflowAdd u64 (slot + next * stride) 8 =
      some (slot + next * stride + 8) := if_pos (by omega)
  rw [nextSlot, if_neg linked, step, Option.bind_some, offset, Option.bind_some, slotEnd,
    Option.bind_some, if_neg (by omega)]

theorem firstSlot_eq_some {pageStart page pageSize segmentOffset bufferSize slot pageEnd : Nat}
    (found : firstSlot pageStart page pageSize segmentOffset bufferSize = some (slot, pageEnd)) :
    slot = segmentOffset + page * pageSize + pageStart ∧
      pageEnd = segmentOffset + page * pageSize + pageSize ∧
      slot + 8 ≤ pageEnd ∧ pageEnd ≤ bufferSize := by
  unfold firstSlot at found
  split at found
  · cases found
  · split at found
    · cases found
    · obtain ⟨base, based, found⟩ := Option.bind_eq_some_iff.mp found
      obtain ⟨stop, stopped, found⟩ := Option.bind_eq_some_iff.mp found
      split at found
      · cases found
      · split at found
        · cases found
        · obtain ⟨slotEnd, ended, found⟩ := Option.bind_eq_some_iff.mp found
          split at found
          · cases found
          · obtain ⟨baseEq, _⟩ := baseOverflowMulAdd_eq_some based
            obtain ⟨stopEq, _⟩ := baseOverflowAdd_eq_some stopped
            obtain ⟨endEq, _⟩ := baseOverflowAdd_eq_some ended
            have pair := Prod.mk.inj (Option.some.inj found)
            exact ⟨by omega, by omega, by omega, by omega⟩

theorem firstSlot_of_inside {pageStart page pageSize segmentOffset bufferSize : Nat}
    (plain : pageStart &&& startMulti = 0) (inside : pageStart + 8 ≤ pageSize)
    (buffered : segmentOffset + page * pageSize + pageSize ≤ bufferSize)
    (bound : bufferSize < u64) :
    firstSlot pageStart page pageSize segmentOffset bufferSize =
      some (segmentOffset + page * pageSize + pageStart,
        segmentOffset + page * pageSize + pageSize) := by
  have present : pageStart ≠ startNone := by
    intro same
    rw [same] at plain
    exact absurd plain (by decide)
  have product : baseOverflowMul u64 page pageSize = some (page * pageSize) := if_pos (by omega)
  have base : baseOverflowMulAdd u64 page pageSize segmentOffset =
      some (segmentOffset + page * pageSize) := by
    rw [baseOverflowMulAdd, product, Option.bind_some, baseOverflowAdd, if_pos (by omega), add_comm]
  have stop : baseOverflowAdd u64 (segmentOffset + page * pageSize) pageSize =
      some (segmentOffset + page * pageSize + pageSize) := if_pos (by omega)
  have slotEnd : baseOverflowAdd u64 (segmentOffset + page * pageSize + pageStart) 8 =
      some (segmentOffset + page * pageSize + pageStart + 8) := if_pos (by omega)
  rw [firstSlot, if_neg present, if_neg (by simp [plain]), base, Option.bind_some, stop,
    Option.bind_some, if_neg (by omega), if_neg (by omega), slotEnd, Option.bind_some,
    if_neg (by omega)]

end Arithmetic

section Safety
variable {σ : Type} (visitor : Option (Visitor σ))

/-- A walk that went on from `before` by calls of the kind `Good`, none of them
twice, and left the size of the buffer as it was. -/
structure Extends (before after : Walk σ) (Good : Visit → Prop) : Prop where
  length : after.buffer.length = before.buffer.length
  fresh : ∃ calls, after.visits = before.visits ++ calls ∧
    after.count = before.count + calls.length ∧ calls.Nodup ∧ ∀ visit ∈ calls, Good visit

theorem Extends.refl (walk : Walk σ) (Good : Visit → Prop) : Extends walk walk Good :=
  ⟨rfl, [], by simp⟩

theorem Extends.trans {before middle after : Walk σ} {First Second Good : Visit → Prop}
    (first : Extends before middle First) (second : Extends middle after Second)
    (apart : ∀ visit, First visit → ¬ Second visit) (firstGood : ∀ visit, First visit → Good visit)
    (secondGood : ∀ visit, Second visit → Good visit) : Extends before after Good := by
  obtain ⟨length, calls, visits, count, nodup, good⟩ := first
  obtain ⟨length', calls', visits', count', nodup', good'⟩ := second
  refine ⟨length'.trans length, calls ++ calls', ?_, ?_, ?_, ?_⟩
  · rw [visits', visits, append_assoc]
  · rw [count', count, length_append, add_assoc]
  · refine nodup_append.mpr ⟨nodup, nodup', ?_⟩
    intro visit member visit' member' same
    exact apart visit (good visit member) (same ▸ good' visit' member')
  · intro visit member
    rcases mem_append.mp member with old | new
    · exact firstGood visit (good visit old)
    · exact secondGood visit (good' visit new)

theorem Extends.imp {before after : Walk σ} {Good Good' : Visit → Prop}
    (extended : Extends before after Good) (weaker : ∀ visit, Good visit → Good' visit) :
    Extends before after Good' := by
  obtain ⟨length, calls, visits, count, nodup, good⟩ := extended
  exact ⟨length, calls, visits, count, nodup, fun visit member => weaker visit (good visit member)⟩

theorem foldlM_extends (step : Walk σ → Nat → Option (Walk σ)) (Good : Nat → Visit → Prop)
    (size : Nat) (indices : List Nat) (walk : Walk σ)
    (sized : walk.buffer.length = size) (distinct : indices.Nodup)
    (separate : ∀ left right visit, Good left visit → Good right visit → left = right)
    (pass : ∀ current index, index ∈ indices → current.buffer.length = size →
      ∃ after, step current index = some after ∧ Extends current after (Good index)) :
    ∃ after, indices.foldlM step walk = some after ∧
      Extends walk after (fun visit => ∃ index ∈ indices, Good index visit) := by
  induction indices generalizing walk with
  | nil => exact ⟨walk, rfl, Extends.refl walk _⟩
  | cons index rest ih =>
    obtain ⟨absent, distinct⟩ := nodup_cons.mp distinct
    obtain ⟨middle, stepped, first⟩ := pass walk index (by simp) sized
    obtain ⟨after, ran, second⟩ := ih middle (first.length.trans sized) distinct
      (fun current other member => pass current other (by simp [member]))
    refine ⟨after, by rw [foldlM_cons, stepped]; exact ran, ?_⟩
    apply first.trans second
    · rintro visit good ⟨other, member, good'⟩
      exact absent (separate index other visit good good' ▸ member)
    · intro visit good
      exact ⟨index, by simp, good⟩
    · rintro visit ⟨other, member, good⟩
      exact ⟨other, by simp [member], good⟩

theorem visitSlot_eq (segment page slot : Nat) (walk : Walk σ)
    (inside : slot + 8 ≤ walk.buffer.length) :
    ∃ context written, callVisitor visitor walk.context slot (load walk.buffer 8 slot) =
        (context, written) ∧ visitSlot visitor segment page slot walk =
        some (⟨store walk.buffer 8 slot written, context, walk.count + 1,
          walk.visits ++ [⟨segment, page, slot⟩]⟩,
          (Rebase.decode (load (store walk.buffer 8 slot written) 8 slot)).next) := by
  generalize called : callVisitor visitor walk.context slot (load walk.buffer 8 slot) = result
  obtain ⟨context, written⟩ := result
  refine ⟨context, written, rfl, ?_⟩
  rw [visitSlot, load?_eq_some _ _ _ inside, Option.bind_some, called]
  simp only
  rw [load?_eq_some _ _ _ (by simpa using inside)]
  rfl

-- Induction on the passes left: a link that is followed is not zero, so the
-- slots of a page only go up and none comes back.
theorem walkChain_extends (segment page stride pageEnd iters slot : Nat) (walk : Walk σ)
    (positive : 0 < stride) (inside : slot + 8 ≤ pageEnd)
    (buffered : pageEnd ≤ walk.buffer.length) :
    ∃ after, walkChain visitor segment page stride pageEnd iters slot walk = some after ∧
      Extends walk after (fun visit => visit.segment = segment ∧ visit.page = page ∧
        slot ≤ visit.slot ∧ visit.slot + 8 ≤ pageEnd) := by
  induction iters generalizing slot walk with
  | zero => exact ⟨walk, rfl, Extends.refl walk _⟩
  | succ iters ih =>
    obtain ⟨context, written, -, stepped⟩ := visitSlot_eq visitor segment page slot walk (by omega)
    generalize visitedEq : (⟨store walk.buffer 8 slot written, context, walk.count + 1,
      walk.visits ++ [⟨segment, page, slot⟩]⟩ : Walk σ) = visited at stepped
    have first : Extends walk visited (fun visit => visit = ⟨segment, page, slot⟩) := by
      rw [← visitedEq]
      exact ⟨store_length _ _ _ _, [⟨segment, page, slot⟩], by simp⟩
    rw [walkChain, stepped, Option.bind_some]
    simp only
    generalize (Rebase.decode (load (store walk.buffer 8 slot written) 8 slot)).next = next
    cases target : nextSlot next stride slot pageEnd with
    | none =>
      refine ⟨visited, rfl, first.imp ?_⟩
      rintro visit rfl
      exact ⟨rfl, rfl, le_refl _, inside⟩
    | some slotOffset =>
      obtain ⟨linked, targetEq, room⟩ := nextSlot_eq_some target
      have ascends : slot < slotOffset := by
        have := Nat.mul_pos (Nat.pos_of_ne_zero linked) positive
        omega
      obtain ⟨after, ran, second⟩ := ih slotOffset visited room
        (by rw [first.length]; exact buffered)
      refine ⟨after, ran, first.trans second ?_ ?_ ?_⟩
      · rintro visit rfl ⟨_, _, above, _⟩
        exact Nat.not_le_of_lt ascends above
      · rintro visit rfl
        exact ⟨rfl, rfl, le_refl _, inside⟩
      · rintro visit ⟨sameSegment, samePage, above, below⟩
        exact ⟨sameSegment, samePage, by omega, below⟩

structure InRecordPage (record : Bytes) (size segment : Nat) (visit : Visit) : Prop where
  segment : visit.segment = segment
  page : visit.page < load record 2 20
  low : load record 8 8 + visit.page * load record 2 4 ≤ visit.slot
  high : visit.slot + 8 ≤ load record 8 8 + visit.page * load record 2 4 + load record 2 4
  inside : load record 8 8 + visit.page * load record 2 4 + load record 2 4 ≤ size

theorem walkPage_extends (segment : Nat) (record : Bytes) (stride : Nat) (walk : Walk σ)
    (page : Nat) (positive : 0 < stride)
    (counted : page < load record 2 20)
    (recorded : startsHeaderSize + 2 * page + 2 ≤ record.length) :
    ∃ after, walkPage visitor segment record (load record 2 4) (load record 8 8) stride walk page =
        some after ∧ Extends walk after (fun visit => visit.page = page ∧
        InRecordPage record walk.buffer.length segment visit) := by
  rw [walkPage, load?_eq_some _ _ _ recorded, Option.bind_some]
  cases head : firstSlot (load record 2 (startsHeaderSize + 2 * page)) page (load record 2 4)
      (load record 8 8) walk.buffer.length with
  | none => exact ⟨walk, rfl, Extends.refl walk _⟩
  | some found =>
    obtain ⟨slot, pageEnd⟩ := found
    obtain ⟨slotEq, endEq, inside, buffered⟩ := firstSlot_eq_some head
    obtain ⟨after, ran, extended⟩ := walkChain_extends visitor segment page stride
      pageEnd (load record 2 4 / 8) slot walk positive inside buffered
    refine ⟨after, ran, extended.imp ?_⟩
    rintro visit ⟨sameSegment, samePage, above, below⟩
    subst samePage
    exact ⟨rfl, sameSegment, counted, by omega, by omega, by omega⟩

theorem kcWalkChainedFixupsInSegment_extends (segment : Nat) (record : Bytes) (walk : Walk σ) :
    ∃ after, kcWalkChainedFixupsInSegment visitor segment record walk = some after ∧
      Extends walk after (InRecordPage record walk.buffer.length segment) := by
  have unchanged : ∃ after, some walk = some after ∧
      Extends walk after (InRecordPage record walk.buffer.length segment) :=
    ⟨walk, rfl, Extends.refl walk _⟩
  unfold kcWalkChainedFixupsInSegment
  split
  · exact unchanged
  · rename_i header
    have headerSize := startsHeaderSize_val
    repeat rw [load?_eq_some _ _ _ (by omega)]
    simp only [Option.bind_some]
    split
    · exact unchanged
    · rename_i declared
      split
      · exact unchanged
      · rename_i table
        split
        · exact unchanged
        · split
          · exact unchanged
          · cases format : pointerStride (load record 2 6) with
            | none => exact unchanged
            | some stride =>
              have positive : 0 < stride := by
                rcases pointerStride_cases format with one | four <;> omega
              obtain ⟨after, ran, extended⟩ := foldlM_extends
                (walkPage visitor segment record (load record 2 4) (load record 8 8) stride)
                (fun page visit => visit.page = page ∧
                  InRecordPage record walk.buffer.length segment visit)
                walk.buffer.length (List.range (load record 2 20)) walk rfl nodup_range
                (fun _ _ _ left right => left.1.symm.trans right.1)
                (by
                  intro current page member sized
                  have counted := mem_range.mp member
                  rw [← sized]
                  exact walkPage_extends visitor segment record stride current page positive counted
                    (by omega))
              refine ⟨after, ran, extended.imp ?_⟩
              rintro visit ⟨_, _, _, good⟩
              exact good

def segmentRecord (blob : Bytes) (segment : Nat) : Bytes :=
  blob.drop (load blob 4 (imageHeaderSize + 4 * segment))

structure InPage (blob : Bytes) (size : Nat) (visit : Visit) : Prop where
  segment : visit.segment < load blob 4 0
  page : InRecordPage (segmentRecord blob visit.segment) size visit.segment visit

theorem walkSegment_extends (blob : Bytes) (walk : Walk σ) (segment : Nat)
    (counted : segment < load blob 4 0)
    (listed : imageHeaderSize + 4 * segment + 4 ≤ blob.length) :
    ∃ after, walkSegment visitor blob walk segment = some after ∧
      Extends walk after (fun visit => visit.segment = segment ∧
        InPage blob walk.buffer.length visit) := by
  rw [walkSegment, load?_eq_some _ _ _ listed, Option.bind_some]
  split
  · exact ⟨walk, rfl, Extends.refl walk _⟩
  · split
    · exact ⟨walk, rfl, Extends.refl walk _⟩
    · obtain ⟨after, ran, extended⟩ := kcWalkChainedFixupsInSegment_extends visitor
        segment (segmentRecord blob segment) walk
      refine ⟨after, ran, extended.imp ?_⟩
      intro visit good
      have same := good.segment
      subst same
      exact ⟨rfl, counted, good⟩

theorem kcWalkChainedFixupsInImage_extends (buffer blob : Bytes) (context : σ) :
    ∃ after, kcWalkChainedFixupsInImage visitor buffer blob context = some after ∧
      Extends ⟨buffer, context, 0, []⟩ after (InPage blob buffer.length) := by
  unfold kcWalkChainedFixupsInImage walkSegments
  split
  · exact ⟨_, rfl, Extends.refl _ _⟩
  · rename_i header
    have headerSize := imageHeaderSize_val
    rw [load?_eq_some _ _ _ (by omega), Option.bind_some]
    split
    · exact ⟨_, rfl, Extends.refl _ _⟩
    · rename_i table
      obtain ⟨after, ran, extended⟩ := foldlM_extends (walkSegment visitor blob)
        (fun segment visit => visit.segment = segment ∧ InPage blob buffer.length visit)
        buffer.length (List.range (load blob 4 0)) ⟨buffer, context, 0, []⟩ rfl nodup_range
        (fun _ _ _ left right => left.1.symm.trans right.1)
        (by
          intro current segment member sized
          have counted := mem_range.mp member
          rw [← sized]
          exact walkSegment_extends visitor blob current segment counted (by omega))
      refine ⟨after, ran, extended.imp ?_⟩
      rintro visit ⟨_, _, _, good⟩
      exact good

/-- The walk ends without an access outside the buffer or the blob, counts its
calls, and makes each of them on a slot of its own inside one page. -/
def Safe (visitor : Option (Visitor σ)) : Prop :=
  ∀ (buffer blob : Bytes) (context : σ),
    ∃ walk, kcWalkChainedFixupsInImage visitor buffer blob context = some walk ∧
      walk.visits.Nodup ∧ walk.count = walk.visits.length ∧
      ∀ visit ∈ walk.visits, InPage blob buffer.length visit

theorem walk_safe : Safe visitor := by
  intro buffer blob context
  obtain ⟨walk, ran, _, calls, visits, count, nodup, good⟩ :=
    kcWalkChainedFixupsInImage_extends visitor buffer blob context
  simp only [nil_append, zero_add] at visits count
  rw [← visits] at count nodup good
  exact ⟨walk, ran, nodup, count, good⟩

end Safety

end OpenCore.FixupWalk
