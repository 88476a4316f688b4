import Mathlib.Algebra.Ring.Nat
import Mathlib.Order.Interval.Finset.Nat

/-!
Half-open intervals that lie apart, and a window: the sizes of what they have in the window add up
to the size of the part they cover, so that the sum is the size of the window only if all of the
window is covered.
-/

namespace OpenCore.IntervalCover

variable {α : Type} (start stop : α → Nat) (low high : Nat)

def shared (interval : α) : Nat := min (stop interval) high - max (start interval) low

def Apart (left right : α) : Prop := stop left ≤ start right ∨ stop right ≤ start left

instance (left right : α) : Decidable (Apart start stop left right) :=
  inferInstanceAs (Decidable (_ ∨ _))

def Holds (interval : α) (point : Nat) : Prop := start interval ≤ point ∧ point < stop interval

instance (interval : α) (point : Nat) : Decidable (Holds start stop interval point) :=
  inferInstanceAs (Decidable (_ ∧ _))

def Covers (intervals : List α) (point : Nat) : Prop :=
  ∃ interval ∈ intervals, Holds start stop interval point

instance (intervals : List α) (point : Nat) : Decidable (Covers start stop intervals point) :=
  inferInstanceAs (Decidable (∃ interval ∈ intervals, _))

def coveredPart (intervals : List α) : Finset Nat :=
  (Finset.Ico low high).filter (Covers start stop intervals)

variable {start stop low high} {intervals rest : List α} {interval left right : α}

instance : Std.Symm (Apart start stop) := ⟨fun _ _ => Or.symm⟩

theorem Apart.not_both (apart : Apart start stop left right) {point : Nat}
    (here : Holds start stop left point) : ¬ Holds start stop right point := by
  intro there
  rcases apart with before | behind
  · exact absurd (here.2.trans_le (before.trans there.1)) (lt_irrefl _)
  · exact absurd (there.2.trans_le (behind.trans here.1)) (lt_irrefl _)

theorem holds_unique (apart : intervals.Pairwise (Apart start stop)) (first : left ∈ intervals)
    (second : right ∈ intervals) {point : Nat} (here : Holds start stop left point)
    (there : Holds start stop right point) : left = right := by
  by_contra different
  exact (apart.forall first second different).not_both here there

theorem shared_eq_card (interval : α) :
    shared start stop low high interval =
      ((Finset.Ico low high).filter (Holds start stop interval)).card := by
  have points : (Finset.Ico low high).filter (Holds start stop interval) =
      Finset.Ico (max (start interval) low) (min (stop interval) high) := by
    ext point
    simp only [Finset.mem_filter, Finset.mem_Ico, Holds, max_le_iff, lt_min_iff]
    exact ⟨fun ⟨⟨above, below⟩, behind, before⟩ => ⟨⟨behind, above⟩, before, below⟩,
      fun ⟨⟨behind, above⟩, before, below⟩ => ⟨⟨above, below⟩, behind, before⟩⟩
  rw [points, Nat.card_Ico, shared]

theorem coveredPart_cons (interval : α) (rest : List α) :
    coveredPart start stop low high (interval :: rest) =
      (Finset.Ico low high).filter (Holds start stop interval) ∪
        coveredPart start stop low high rest := by
  rw [coveredPart, coveredPart, ← Finset.filter_or]
  refine Finset.filter_congr fun point _ => ?_
  simp only [Covers, List.mem_cons, exists_eq_or_imp]

theorem sum_shared (apart : intervals.Pairwise (Apart start stop)) :
    (intervals.map (shared start stop low high)).sum =
      (coveredPart start stop low high intervals).card := by
  induction intervals with
  | nil =>
    have none : coveredPart start stop low high [] = ∅ :=
      Finset.filter_false_of_mem fun point _ ⟨_, member, _⟩ => by cases member
    rw [none]
    rfl
  | cons interval rest ih =>
    obtain ⟨others, later⟩ := List.pairwise_cons.mp apart
    rw [List.map_cons, List.sum_cons, ih later, coveredPart_cons, shared_eq_card,
      Finset.card_union_of_disjoint]
    rw [Finset.disjoint_left]
    intro point here there
    obtain ⟨other, member, covered⟩ := (Finset.mem_filter.mp there).2
    exact (others other member).not_both (Finset.mem_filter.mp here).2 covered

theorem sum_shared_le (apart : intervals.Pairwise (Apart start stop)) :
    (intervals.map (shared start stop low high)).sum ≤ high - low := by
  rw [sum_shared apart, ← Nat.card_Ico]
  exact Finset.card_filter_le _ _

theorem sum_shared_eq_iff (apart : intervals.Pairwise (Apart start stop)) :
    (intervals.map (shared start stop low high)).sum = high - low ↔
      ∀ point, low ≤ point → point < high → Covers start stop intervals point := by
  rw [sum_shared apart, ← Nat.card_Ico, coveredPart, Finset.card_filter_eq_iff]
  simp only [Finset.mem_Ico, and_imp]

end OpenCore.IntervalCover
