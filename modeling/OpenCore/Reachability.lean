import Mathlib.Logic.Relation
import Mathlib.Data.Set.Finite.Basic
import Mathlib.Data.Fintype.Order
import Mathlib.Order.WellFounded

/-!
Steps from node to node over finitely many targets: either a cycle can be
reached, or every sequence of steps ends.
-/

namespace OpenCore.Reachability

open Relation

variable {α : Type*} {step : α → α → Prop} {node : α}

def Endless (step : α → α → Prop) (node : α) : Prop :=
  ∃ other, ReflTransGen step node other ∧ TransGen step other other

theorem Endless.next (endless : Endless step node) :
    ∃ next, step node next ∧ Endless step next := by
  obtain ⟨other, reach, cycle⟩ := endless
  rcases ReflTransGen.cases_head reach with same | ⟨next, first, rest⟩
  · subst same
    obtain ⟨next, first, rest⟩ := TransGen.head'_iff.mp cycle
    exact ⟨next, first, node, rest, cycle⟩
  · exact ⟨next, first, other, rest, cycle⟩

theorem not_endless_of_acc (acc : Acc (fun next node => step node next) node) :
    ¬ Endless step node := by
  induction acc with
  | intro node _ ih =>
    intro endless
    obtain ⟨next, first, rest⟩ := endless.next
    exact ih next first rest

-- The targets that can be reached are finitely many, and on them the steps,
-- taken transitively, are irreflexive.
theorem acc_of_not_endless {targets : Set α} (finite : targets.Finite)
    (bounded : ∀ node next, step node next → next ∈ targets) (ends : ¬ Endless step node) :
    Acc (fun next node => step node next) node := by
  let reached : Set α := { other | other ∈ targets ∧ ReflTransGen step node other }
  have : Finite reached := Set.Finite.subset finite fun _ member => member.1
  let below : reached → reached → Prop := fun left right => TransGen step right.1 left.1
  have trans : IsTrans reached below := ⟨fun _ _ _ left right => right.trans left⟩
  have irrefl : Std.Irrefl below := ⟨fun other cycle => ends ⟨other.1, other.2.2, cycle⟩⟩
  have wellFounded : WellFounded below := Finite.wellFounded_of_trans_of_irrefl below
  have descends : ∀ other : reached, Acc (fun next node => step node next) other.1 := by
    intro other
    induction other using wellFounded.induction with
    | _ other ih =>
      constructor
      intro next first
      have member : next ∈ reached := ⟨bounded _ _ first, other.2.2.tail first⟩
      exact ih ⟨next, member⟩ (TransGen.single first)
  constructor
  intro next first
  exact descends ⟨next, bounded _ _ first, ReflTransGen.single first⟩

end OpenCore.Reachability
