import Mathlib.Data.List.Basic
import Mathlib.Logic.Function.Basic
import Mathlib.Logic.Relation

/-!
A depth-first search of a graph for a result, with a mark on every node that was visited.
A visit looks at its node in one of several ways; the nodes behind it are all looked at in
the same, deep way, and those with a mark are skipped. The search ends at the first result.
-/

namespace OpenCore.MarkedSearch

open List

universe u v w
variable {Node : Type u} {Result : Type v} {Kind : Type w}

abbrev Marks (Node : Type u) := Node → Bool

def Marks.add [DecidableEq Node] (marks : Marks Node) (node : Node) :
    Marks Node := Function.update marks node true

def searchAll (visit : Node → Marks Node → Option (Option Result × Marks Node)) :
    List Node → Marks Node → Option (Option Result × Marks Node)
  | [], marks => some (none, marks)
  | node :: rest, marks =>
    match visit node marks with
    | none => none
    | some (some result, marks) => some (some result, marks)
    | some (none, marks) => searchAll visit rest marks

def skipMarked (visit : Node → Marks Node → Option (Option Result × Marks Node)) (node : Node)
    (marks : Marks Node) : Option (Option Result × Marks Node) :=
  if marks node then some (none, marks) else visit node marks

section Search
variable (next : Kind → Node → List Node) (look : Kind → Node → Option Result) (deep : Kind)

def search [DecidableEq Node] : Nat → Kind → Node → Marks Node → Option (Option Result × Marks Node)
  | 0, _, _, _ => none
  | fuel + 1, kind, node, marks =>
    match look kind node with
    | some result => some (some result, marks.add node)
    | none => searchAll (skipMarked (search fuel deep)) (next kind node) (marks.add node)

def Behind : Node → Node → Prop := Relation.ReflTransGen fun node other => other ∈ next deep node

end Search

section Marks
variable [DecidableEq Node] {marks : Marks Node} {node other : Node}

theorem add_self : marks.add node node = true := Function.update_self _ _ _

theorem add_of_marked (marked : marks other = true) : marks.add node other = true := by
  by_cases same : other = node
  · rw [same, add_self]
  · rw [Marks.add, Function.update_of_ne same, marked]

theorem marked_of_add (marked : marks.add node other = true) (different : other ≠ node) :
    marks other = true := by
  rwa [Marks.add, Function.update_of_ne different] at marked

end Marks

section Fruitless
variable {next : Kind → Node → List Node} {look : Kind → Node → Option Result} {deep : Kind}
  {kind : Kind} {node : Node} {nodes : List Node} {marks after : Marks Node}
variable {visit : Node → Marks Node → Option (Option Result × Marks Node)} {fuel : Nat}

/-- What a search without a result leaves behind: the marks grow, and a node that is newly
marked has nothing to be found and only marked nodes behind it. -/
structure Exhausted (next : Kind → Node → List Node) (look : Kind → Node → Option Result)
    (deep : Kind) (before after : Marks Node) : Prop where
  grows : ∀ node, before node = true → after node = true
  empty : ∀ node, after node = true → before node = false → look deep node = none
  closed : ∀ node, after node = true → before node = false →
    ∀ other ∈ next deep node, after other = true

theorem Exhausted.refl : Exhausted next look deep marks marks where
  grows _ marked := marked
  empty _ marked unmarked := absurd (unmarked.symm.trans marked) Bool.false_ne_true
  closed _ marked unmarked := absurd (unmarked.symm.trans marked) Bool.false_ne_true

theorem Exhausted.trans {middle : Marks Node} (first : Exhausted next look deep marks middle)
    (second : Exhausted next look deep middle after) : Exhausted next look deep marks after := by
  constructor
  · intro node marked
    exact second.grows node (first.grows node marked)
  · intro node marked unmarked
    cases seen : middle node with
    | true => exact first.empty node seen unmarked
    | false => exact second.empty node marked seen
  · intro node marked unmarked other member
    cases seen : middle node with
    | true => exact second.grows other (first.closed node seen unmarked other member)
    | false => exact second.closed node marked seen other member

theorem searchAll_none (step : ∀ node marks after, visit node marks = some (none, after) →
      Exhausted next look deep marks after ∧ after node = true)
    (scan : searchAll visit nodes marks = some (none, after)) :
    Exhausted next look deep marks after ∧ ∀ node ∈ nodes, after node = true := by
  induction nodes generalizing marks with
  | nil =>
    cases scan
    exact ⟨.refl, fun _ member => by cases member⟩
  | cons first rest ih =>
    rw [searchAll] at scan
    split at scan
    · cases scan
    · cases scan
    · rename_i middle visited
      obtain ⟨early, marked⟩ := step first marks middle visited
      obtain ⟨late, others⟩ := ih scan
      refine ⟨early.trans late, fun node member => ?_⟩
      rcases mem_cons.mp member with rfl | member
      · exact late.grows node marked
      · exact others node member

structure Covers (next : Kind → Node → List Node) (look : Kind → Node → Option Result)
    (kind deep : Kind) : Prop where
  look : ∀ node, look kind node = none → look deep node = none
  next : ∀ node, next kind node = next deep node

theorem Covers.refl : Covers next look deep deep := ⟨fun _ nothing => nothing, fun _ => rfl⟩

theorem search_none [DecidableEq Node] (covers : Covers next look kind deep)
    (scan : search next look deep fuel kind node marks = some (none, after)) :
    Exhausted next look deep marks after ∧ after node = true := by
  induction fuel generalizing kind node marks after with
  | zero => cases scan
  | succ fuel ih =>
    rw [search] at scan
    split at scan
    · cases scan
    · rename_i nothing
      have step : ∀ node marks after,
          skipMarked (search next look deep fuel deep) node marks = some (none, after) →
            Exhausted next look deep marks after ∧ after node = true := by
        intro node marks after visited
        rw [skipMarked] at visited
        split at visited
        · rename_i marked
          cases visited
          exact ⟨.refl, marked⟩
        · exact ih .refl visited
      obtain ⟨exhausted, behind⟩ := searchAll_none step scan
      have marked := exhausted.grows node add_self
      refine ⟨⟨fun other old => exhausted.grows other (add_of_marked old), ?_, ?_⟩, marked⟩
      · intro other seen unmarked
        by_cases same : other = node
        · rw [same]
          exact covers.look node nothing
        · have fresh : marks.add node other = false := by
            rw [Bool.eq_false_iff]
            intro added
            rw [marked_of_add added same] at unmarked
            cases unmarked
          exact exhausted.empty other seen fresh
      · intro other seen unmarked child member
        by_cases same : other = node
        · rw [same, ← covers.next] at member
          exact behind child member
        · have fresh : marks.add node other = false := by
            rw [Bool.eq_false_iff]
            intro added
            rw [marked_of_add added same] at unmarked
            cases unmarked
          exact exhausted.closed other seen fresh child member

theorem searchAll_visited
    (scan : searchAll visit nodes marks = some (none, after)) (member : node ∈ nodes) :
    ∃ before behind, visit node before = some (none, behind) := by
  induction nodes generalizing marks with
  | nil => cases member
  | cons first rest ih =>
    rw [searchAll] at scan
    split at scan
    · cases scan
    · cases scan
    · rename_i middle visited
      rcases mem_cons.mp member with rfl | member
      · exact ⟨marks, middle, visited⟩
      · exact ih scan member

theorem search_looked [DecidableEq Node]
    (scan : search next look deep fuel kind node marks = some (none, after)) :
    look kind node = none := by
  cases fuel with
  | zero => cases scan
  | succ fuel =>
    rw [search] at scan
    split at scan
    · cases scan
    · assumption

theorem roots_none [DecidableEq Node] {roots : List Node} (covers : Covers next look kind deep)
    (fresh : ∀ root ∈ roots, ∀ node, Behind next deep root node → marks node = false)
    (scan : searchAll (search next look deep fuel kind) roots marks = some (none, after)) :
    ∀ root ∈ roots, ∀ node, Behind next deep root node → look deep node = none := by
  obtain ⟨exhausted, visited⟩ := searchAll_none (fun _ _ _ => search_none covers) scan
  intro root member node behind
  have marked := visited root member
  have reached : after node = true := by
    induction behind with
    | refl => exact marked
    | tail before step ih => exact exhausted.closed _ ih (fresh root member _ before) _ step
  exact exhausted.empty node reached (fresh root member node behind)

end Fruitless

section Fruitful
variable {next : Kind → Node → List Node} {look : Kind → Node → Option Result}
  {deep kind : Kind} {node : Node} {nodes : List Node} {marks after : Marks Node} {result : Result}

theorem searchAll_some {visit : Node → Marks Node → Option (Option Result × Marks Node)}
    (scan : searchAll visit nodes marks = some (some result, after)) :
    ∃ node ∈ nodes, ∃ before, visit node before = some (some result, after) := by
  induction nodes generalizing marks with
  | nil => cases scan
  | cons first rest ih =>
    rw [searchAll] at scan
    split at scan
    · cases scan
    · rename_i visited
      cases scan
      exact ⟨first, mem_cons_self, marks, visited⟩
    · obtain ⟨node, member, found⟩ := ih scan
      exact ⟨node, mem_cons_of_mem _ member, found⟩

theorem search_some [DecidableEq Node] {fuel : Nat}
    (scan : search next look deep fuel kind node marks = some (some result, after)) :
    look kind node = some result ∨ ∃ child ∈ next kind node, ∃ other,
      Behind next deep child other ∧ look deep other = some result := by
  induction fuel generalizing kind node marks after with
  | zero => cases scan
  | succ fuel ih =>
    rw [search] at scan
    split at scan
    · rename_i found
      cases scan
      exact .inl found
    · obtain ⟨child, member, before, visited⟩ := searchAll_some scan
      rw [skipMarked] at visited
      split at visited
      · cases visited
      · refine .inr ⟨child, member, ?_⟩
        rcases ih visited with here | ⟨grandchild, step, other, behind, found⟩
        · exact ⟨child, .refl, here⟩
        · exact ⟨other, behind.head step, found⟩

end Fruitful

section Termination
variable {next : Kind → Node → List Node} {look : Kind → Node → Option Result}
  {deep kind : Kind} {node : Node} {nodes all : List Node} {marks : Marks Node}

def unmarked (all : List Node) (marks : Marks Node) : Nat :=
  (all.filter fun node => !marks node).length

def Grows (before after : Marks Node) : Prop := ∀ node, before node = true → after node = true

theorem unmarked_le {before after : Marks Node} (grows : Grows before after) :
    unmarked all after ≤ unmarked all before := by
  apply List.Sublist.length_le
  apply monotone_filter_right
  intro node unseen
  cases marked : before node with
  | false => rfl
  | true =>
    rw [grows node marked] at unseen
    cases unseen

theorem unmarked_lt (marks : Marks Node) (all : List Node) : unmarked all marks < all.length + 1 :=
  Nat.lt_succ_of_le (length_filter_le _ _)

/-- The nodes are visited one after another, each with the marks that those before it left. -/
theorem searchAll_returns {visit : Node → Marks Node → Option (Option Result × Marks Node)}
    (step : ∀ node ∈ nodes, ∀ grown, Grows marks grown →
      ∃ result after, visit node grown = some (result, after) ∧ Grows grown after) :
    ∃ result after, searchAll visit nodes marks = some (result, after) ∧ Grows marks after := by
  induction nodes generalizing marks with
  | nil => exact ⟨none, marks, rfl, fun _ marked => marked⟩
  | cons first rest ih =>
    obtain ⟨result, middle, visited, early⟩ := step first mem_cons_self marks fun _ marked => marked
    cases result with
    | some result => exact ⟨some result, middle, by rw [searchAll, visited], early⟩
    | none =>
      obtain ⟨result, after, scan, late⟩ := ih fun node member grown further =>
        step node (mem_cons_of_mem _ member) grown fun other marked =>
          further other (early other marked)
      refine ⟨result, after, ?_, fun other marked => late other (early other marked)⟩
      rw [searchAll, visited]
      exact scan

variable [DecidableEq Node]

theorem unmarked_add (member : node ∈ all) (fresh : marks node = false) :
    unmarked all (marks.add node) < unmarked all marks := by
  have same : (all.filter fun other => !marks.add node other) =
      (all.filter fun other => !marks other).filter fun other => decide (other ≠ node) := by
    rw [filter_filter]
    apply filter_congr
    intro other _
    by_cases equal : other = node
    · rw [equal, add_self]
      simp
    · simp [Marks.add, equal]
  rw [unmarked, same]
  apply length_filter_lt_length_iff_exists.mpr
  exact ⟨node, mem_filter.mpr ⟨member, by simp [fresh]⟩, by simp⟩

theorem search_returns {fuel : Nat}
    (closed : ∀ kind, ∀ node ∈ all, ∀ other ∈ next kind node, other ∈ all) (member : node ∈ all)
    (enough : unmarked all (marks.add node) < fuel) :
    ∃ result after, search next look deep fuel kind node marks = some (result, after) ∧
      Grows marks after := by
  induction fuel generalizing kind node marks with
  | zero => exact absurd enough (Nat.not_lt_zero _)
  | succ fuel ih =>
    have added : Grows marks (marks.add node) := fun _ => add_of_marked
    rw [search]
    cases look kind node with
    | some result => exact ⟨some result, _, rfl, added⟩
    | none =>
      have step : ∀ child ∈ next kind node, ∀ grown, Grows (marks.add node) grown →
          ∃ result after, skipMarked (search next look deep fuel deep) child grown =
            some (result, after) ∧ Grows grown after := by
        intro child behind grown further
        rw [skipMarked]
        split
        · exact ⟨none, grown, rfl, fun _ marked => marked⟩
        · rename_i fresh
          have inside : child ∈ all := closed kind node member child behind
          have fewer := unmarked_add inside (Bool.eq_false_iff.mpr fresh)
          have fewest : unmarked all grown ≤ _ := unmarked_le further
          exact ih inside (by omega)
      obtain ⟨result, after, scan, grows⟩ := searchAll_returns step
      exact ⟨result, after, scan, fun other marked => grows other (added other marked)⟩

theorem roots_return {fuel : Nat} {roots : List Node}
    (closed : ∀ kind, ∀ node ∈ all, ∀ other ∈ next kind node, other ∈ all)
    (inside : ∀ root ∈ roots, root ∈ all) (enough : all.length < fuel) (marks : Marks Node) :
    ∃ result after, searchAll (search next look deep fuel kind) roots marks =
      some (result, after) := by
  have step : ∀ root ∈ roots, ∀ grown, Grows marks grown →
      ∃ result after, search next look deep fuel kind root grown = some (result, after) ∧
        Grows grown after := by
    intro root member grown _
    have few := unmarked_lt (grown.add root) all
    exact search_returns closed (inside root member) (by omega)
  obtain ⟨result, after, scan, -⟩ := searchAll_returns step
  exact ⟨result, after, scan⟩

end Termination

section Agreement
variable {next : Kind → Node → List Node} {look : Kind → Node → Option Result}
  {deep kind : Kind} {node : Node} {nodes all : List Node} {marks other after : Marks Node}
  {result : Option Result}

def Agree (all : List Node) (marks other : Marks Node) : Prop :=
  ∀ node ∈ all, marks node = other node

theorem searchAll_congr {visit : Node → Marks Node → Option (Option Result × Marks Node)}
    (step : ∀ node ∈ nodes, ∀ marks other, Agree all marks other → ∀ result after,
      visit node marks = some (result, after) →
        ∃ same, visit node other = some (result, same) ∧ Agree all after same)
    (agree : Agree all marks other) (scan : searchAll visit nodes marks = some (result, after)) :
    ∃ same, searchAll visit nodes other = some (result, same) ∧ Agree all after same := by
  induction nodes generalizing marks other with
  | nil =>
    cases scan
    exact ⟨other, rfl, agree⟩
  | cons first rest ih =>
    rw [searchAll] at scan
    split at scan
    · cases scan
    · rename_i visited
      cases scan
      obtain ⟨same, again, kept⟩ := step first mem_cons_self marks other agree _ _ visited
      exact ⟨same, by rw [searchAll, again], kept⟩
    · rename_i middle visited
      obtain ⟨same, again, kept⟩ := step first mem_cons_self marks other agree _ _ visited
      obtain ⟨last, searchedAgain, keptAgain⟩ :=
        ih (fun node member => step node (mem_cons_of_mem _ member)) kept scan
      refine ⟨last, ?_, keptAgain⟩
      rw [searchAll, again]
      exact searchedAgain

variable [DecidableEq Node]

theorem agree_add (agree : Agree all marks other) (node : Node) :
    Agree all (marks.add node) (other.add node) := by
  intro each member
  rw [Marks.add, Marks.add, Function.update_apply, Function.update_apply, agree each member]

theorem search_congr {fuel : Nat}
    (closed : ∀ kind, ∀ node ∈ all, ∀ other ∈ next kind node, other ∈ all) (member : node ∈ all)
    (agree : Agree all marks other)
    (scan : search next look deep fuel kind node marks = some (result, after)) :
    ∃ same, search next look deep fuel kind node other = some (result, same) ∧
      Agree all after same := by
  induction fuel generalizing kind node marks other result after with
  | zero => cases scan
  | succ fuel ih =>
    rw [search] at scan
    rw [search]
    cases found : look kind node with
    | some _ =>
      rw [found] at scan
      cases scan
      exact ⟨_, rfl, agree_add agree node⟩
    | none =>
      rw [found] at scan
      refine searchAll_congr ?_ (agree_add agree node) scan
      intro child behind marks other agree result after visited
      have inside := closed kind node member child behind
      rw [skipMarked] at visited
      rw [skipMarked, ← agree child inside]
      split at visited
      · rename_i marked
        cases visited
        exact ⟨other, if_pos marked, agree⟩
      · rename_i fresh
        rw [if_neg fresh]
        exact ih inside agree visited

end Agreement

end OpenCore.MarkedSearch
