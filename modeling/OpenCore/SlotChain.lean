import Mathlib.Data.List.Sort
import Mathlib.Logic.Function.Basic

/-!
A singly linked list threaded through the slots it links: `link slot` is the
distance to the next slot, zero at the end. Links only go upwards, so a chain
is sorted and is determined by its first slot. Nothing here depends on where
the links are kept.
-/

namespace OpenCore.SlotChain

open List

def Linked (link : Nat → Nat) : List Nat → Prop
  | [] => True
  | [last] => link last = 0
  | slot :: next :: rest =>
    slot < next ∧ link slot = next - slot ∧ Linked link (next :: rest)

def follow (link : Nat → Nat) : Nat → Nat → List Nat
  | 0, _ => []
  | fuel + 1, slot =>
    slot :: if link slot = 0 then [] else follow link fuel (slot + link slot)

/-- The last slot of the chain that precedes `target`, from a slot that does. -/
def seek (link : Nat → Nat) (target : Nat) : Nat → Nat → Nat
  | 0, slot => slot
  | fuel + 1, slot =>
    if slot + link slot < target ∧ link slot ≠ 0 then
      seek link target fuel (slot + link slot)
    else slot

variable {link : Nat → Nat}

theorem Linked.tail {slot : Nat} {rest : List Nat}
    (chain : Linked link (slot :: rest)) : Linked link rest := by
  cases rest with
  | nil => trivial
  | cons next rest => exact chain.2.2

variable {slots : List Nat}

theorem Linked.pairwise (chain : Linked link slots) : slots.Pairwise (· < ·) := by
  induction slots with
  | nil => exact List.Pairwise.nil
  | cons slot rest ih =>
    have sorted := ih chain.tail
    cases rest with
    | nil => simp
    | cons next rest =>
      refine pairwise_cons.mpr ⟨?_, sorted⟩
      intro other member
      have first := chain.1
      rcases mem_cons.mp member with same | later
      · omega
      · have above := (pairwise_cons.mp sorted).1 other later
        omega

theorem Linked.congr {left right : Nat → Nat}
    (chain : Linked left slots) (same : ∀ slot ∈ slots, right slot = left slot) :
    Linked right slots := by
  induction slots with
  | nil => trivial
  | cons slot rest ih =>
    have tail := ih chain.tail (fun other member => same other (by simp [member]))
    have head := same slot (by simp)
    cases rest with
    | nil => simpa [Linked, head] using chain
    | cons next rest => exact ⟨chain.1, head.trans chain.2.1, tail⟩

theorem Linked.last_zero (chain : Linked link slots) (nonempty : slots ≠ []) :
    link (slots.getLast nonempty) = 0 := by
  induction slots with
  | nil => exact absurd rfl nonempty
  | cons slot rest ih =>
    cases rest with
    | nil => simpa [Linked] using chain
    | cons next rest =>
      rw [getLast_cons (by simp)]
      exact ih chain.tail (by simp)

theorem Linked.shift (link : Nat → Nat) (base : Nat) (slots : List Nat)
    (chain : Linked (fun offset => link (base + offset)) slots) :
    Linked link (slots.map fun offset => base + offset) := by
  induction slots with
  | nil => trivial
  | cons slot rest ih =>
    cases rest with
    | nil => exact chain
    | cons next rest =>
      obtain ⟨ascends, delta, tail⟩ := chain
      refine ⟨Nat.add_lt_add_left ascends base, ?_, ih tail⟩
      exact delta.trans (Nat.add_sub_add_left base next slot).symm

theorem follow_linked (link : Nat → Nat) (slot : Nat) (rest : List Nat)
    (fuel : Nat) (chain : Linked link (slot :: rest)) (enough : rest.length < fuel) :
    follow link fuel slot = slot :: rest := by
  induction rest generalizing slot fuel with
  | nil =>
    cases fuel with
    | zero => omega
    | succ fuel =>
      have final : link slot = 0 := chain
      simp [follow, final]
  | cons next rest ih =>
    cases fuel with
    | zero => omega
    | succ fuel =>
      obtain ⟨ascends, delta, tail⟩ := chain
      have more : link slot ≠ 0 := by omega
      have target : slot + link slot = next := by omega
      rw [follow, if_neg more, target, ih next fuel tail (by simpa using enough)]

theorem seek_mem (link : Nat → Nat) (target slot : Nat) (rest : List Nat)
    (fuel : Nat) (chain : Linked link (slot :: rest)) :
    seek link target fuel slot ∈ slot :: rest := by
  induction rest generalizing slot fuel with
  | nil =>
    cases fuel with
    | zero => simp [seek]
    | succ fuel =>
      have final : link slot = 0 := chain
      simp [seek, final]
  | cons next rest ih =>
    cases fuel with
    | zero => simp [seek]
    | succ fuel =>
      obtain ⟨ascends, delta, tail⟩ := chain
      have step : slot + link slot = next := by omega
      rw [seek, step]
      split
      · exact mem_cons_of_mem _ (ih next fuel tail)
      · exact mem_cons_self

theorem seek_stops (link : Nat → Nat) (target slot : Nat) (rest : List Nat)
    (fuel : Nat) (chain : Linked link (slot :: rest)) (low : slot < target)
    (enough : rest.length < fuel) :
    seek link target fuel slot < target ∧ (link (seek link target fuel slot) = 0 ∨
        target ≤ seek link target fuel slot + link (seek link target fuel slot)) := by
  induction rest generalizing slot fuel with
  | nil =>
    cases fuel with
    | zero => omega
    | succ fuel =>
      have final : link slot = 0 := chain
      have found : seek link target (fuel + 1) slot = slot := by simp [seek, final]
      rw [found]
      exact ⟨low, Or.inl final⟩
  | cons next rest ih =>
    cases fuel with
    | zero => omega
    | succ fuel =>
      obtain ⟨ascends, delta, tail⟩ := chain
      have step : slot + link slot = next := by omega
      rw [seek, step]
      split
      · exact ih next fuel tail (by omega) (by simpa using enough)
      · exact ⟨low, by omega⟩

def spliced (link : Nat → Nat) (before fresh : Nat) : Nat → Nat :=
  Function.update
    (Function.update link fresh
      (if link before = 0 then 0 else link before - (fresh - before)))
    before (fresh - before)

theorem spliced_other (link : Nat → Nat) (before fresh slot : Nat)
    (notBefore : slot ≠ before) (notFresh : slot ≠ fresh) :
    spliced link before fresh slot = link slot := by
  simp [spliced, Function.update_of_ne notBefore, Function.update_of_ne notFresh]

theorem spliced_before (link : Nat → Nat) (before fresh : Nat) :
    spliced link before fresh before = fresh - before := by
  simp [spliced]

theorem spliced_fresh (link : Nat → Nat) (before fresh : Nat) (different : fresh ≠ before) :
    spliced link before fresh fresh =
      if link before = 0 then 0 else link before - (fresh - before) := by
  simp [spliced, Function.update_of_ne different]

-- Induction along the chain: either the predecessor is this slot, or the
-- search moves on and the slot keeps its link.
theorem seek_spliced (link : Nat → Nat) (fresh slot : Nat) (rest : List Nat)
    (fuel : Nat) (chain : Linked link (slot :: rest)) (above : slot < fresh)
    (absent : fresh ∉ rest) (enough : rest.length < fuel) :
    Linked (spliced link (seek link fresh fuel slot) fresh)
      (slot :: rest.orderedInsert (· ≤ ·) fresh) := by
  induction rest generalizing slot fuel with
  | nil =>
    cases fuel with
    | zero => omega
    | succ fuel =>
      have final : link slot = 0 := chain
      have found : seek link fresh (fuel + 1) slot = slot := by simp [seek, final]
      rw [found]
      refine ⟨above, spliced_before link slot fresh, ?_⟩
      show spliced link slot fresh fresh = 0
      rw [spliced_fresh link slot fresh (by omega), if_pos final]
  | cons next rest ih =>
    cases fuel with
    | zero => omega
    | succ fuel =>
      have sorted := chain.pairwise
      obtain ⟨ascends, delta, tail⟩ := chain
      have step : slot + link slot = next := by omega
      have more : link slot ≠ 0 := by omega
      have different : fresh ≠ next := fun same => absent (by simp [same])
      by_cases passed : next < fresh
      · have found : seek link fresh (fuel + 1) slot = seek link fresh fuel next := by
          rw [seek, step, if_pos ⟨passed, more⟩]
        have kept := ih next fuel tail passed (fun member => absent (by simp [member]))
          (by simpa using enough)
        have member := seek_mem link fresh next rest fuel tail
        have below := (pairwise_cons.mp sorted).1 _ member
        have insertion : (next :: rest).orderedInsert (· ≤ ·) fresh =
            next :: rest.orderedInsert (· ≤ ·) fresh := by
          rw [orderedInsert_cons, if_neg (by omega)]
        rw [found, insertion]
        refine ⟨ascends, ?_, kept⟩
        rw [spliced_other link _ fresh slot (by omega) (by omega), delta]
      · have found : seek link fresh (fuel + 1) slot = slot := by
          rw [seek, step, if_neg (by omega)]
        have insertion : (next :: rest).orderedInsert (· ≤ ·) fresh = fresh :: next :: rest := by
          rw [orderedInsert_cons, if_pos (by omega)]
        rw [found, insertion]
        refine ⟨above, spliced_before link slot fresh, by omega, ?_, ?_⟩
        · rw [spliced_fresh link slot fresh (by omega), if_neg more]
          omega
        · apply tail.congr
          intro other member
          have low := (pairwise_cons.mp sorted).1 other member
          apply spliced_other link slot fresh other (by omega)
          intro same
          exact absent (same ▸ member)

theorem length_mul_le (width low limit : Nat) (slots : List Nat) (nonempty : slots ≠ [])
    (apart : slots.Pairwise fun left right => left + width ≤ right)
    (inside : ∀ slot ∈ slots, low ≤ slot ∧ slot + width ≤ limit) :
    low + width * slots.length ≤ limit := by
  induction slots generalizing low with
  | nil => exact absurd rfl nonempty
  | cons slot rest ih =>
    have bounds := inside slot (by simp)
    obtain ⟨above, tail⟩ := pairwise_cons.mp apart
    by_cases last : rest = []
    · subst last
      simpa using by omega
    · have room := ih (slot + width) last tail (by
        intro other member
        exact ⟨above other member, (inside other (by simp [member])).2⟩)
      rw [length_cons, Nat.mul_succ]
      omega

end OpenCore.SlotChain
