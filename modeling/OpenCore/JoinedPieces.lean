import Mathlib.Data.List.Basic

/-!
Sequences written as pieces with a separator between any two. A walk compares two such lists
piece by piece, and asks for a separator in one where the other has a boundary.
-/

namespace OpenCore.JoinedPieces

open List

section Definitions

variable {α : Type} (separator : α)

def joined : List (List α) → List α
  | [] => []
  | [piece] => piece
  | piece :: next :: rest => piece ++ separator :: joined (next :: rest)

def boundaries : Nat → List (List α) → List Nat
  | _, [] => []
  | _, [_] => []
  | start, piece :: next :: rest =>
    (start + piece.length) :: boundaries (start + piece.length + 1) (next :: rest)

def Nonempty (pieces : List (List α)) : Prop := ∀ piece ∈ pieces, piece ≠ []

/-- No boundary of the second list lies right behind a boundary of the first. -/
def Clear (start : Nat) (left right : List (List α)) : Prop :=
  ∀ place ∈ boundaries start left, place + 1 ∉ boundaries start right

def Apart (start : Nat) (left right : List (List α)) : Prop :=
  Clear start left right ∧ Clear start right left

inductive Walk : List (List α) → List (List α) → Prop
  | ends : Walk [] []
  | both {piece : List α} {left right : List (List α)} (rest : Walk left right) :
      Walk (piece :: left) (piece :: right)
  | left {piece behind : List α} {left right : List (List α)} (more : left ≠ [])
      (some : behind ≠ []) (rest : Walk left (behind :: right)) :
      Walk (piece :: left) ((piece ++ separator :: behind) :: right)
  | right {piece behind : List α} {left right : List (List α)} (more : right ≠ [])
      (some : behind ≠ []) (rest : Walk (behind :: left) right) :
      Walk ((piece ++ separator :: behind) :: left) (piece :: right)

end Definitions

section Joined

variable {α : Type} {separator : α} {piece behind : List α} {rest left right : List (List α)}

theorem joined_cons (more : rest ≠ []) :
    joined separator (piece :: rest) = piece ++ separator :: joined separator rest := by
  cases rest with
  | nil => exact absurd rfl more
  | cons next rest => rfl

theorem joined_cut : joined separator ((piece ++ separator :: behind) :: rest) =
    piece ++ separator :: joined separator (behind :: rest) := by
  cases rest with
  | nil => rfl
  | cons next rest => rw [joined, joined, append_assoc, cons_append]

theorem length_joined_cons : piece.length ≤ (joined separator (piece :: rest)).length := by
  cases rest with
  | nil => exact Nat.le_refl _
  | cons next rest =>
    rw [joined, length_append]
    exact Nat.le_add_right _ _

theorem joined_eq_nil (nonempty : Nonempty left) (empty : joined separator left = []) :
    left = [] := by
  cases left with
  | nil => rfl
  | cons piece rest =>
    have length := @length_joined_cons α separator piece rest
    rw [empty] at length
    have none : piece = [] := length_eq_zero_iff.mp (Nat.le_zero.mp length)
    exact absurd none (nonempty piece mem_cons_self)

theorem Nonempty.tail (nonempty : Nonempty (piece :: rest)) : Nonempty rest :=
  fun other member => nonempty other (mem_cons_of_mem piece member)

theorem Nonempty.cut (nonempty : Nonempty (piece :: rest)) (some : behind ≠ []) :
    Nonempty (behind :: rest) := by
  intro other member
  cases mem_cons.mp member with
  | inl same => exact same ▸ some
  | inr later => exact nonempty.tail other later

end Joined

section Boundaries

variable {α : Type} {separator : α} {piece behind : List α} {rest left right : List (List α)}
  {start place : Nat}

theorem boundaries_cons (more : rest ≠ []) : boundaries start (piece :: rest) =
    (start + piece.length) :: boundaries (start + piece.length + 1) rest := by
  cases rest with
  | nil => exact absurd rfl more
  | cons next rest => rfl

theorem boundaries_cut : boundaries start ((piece ++ separator :: behind) :: rest) =
    boundaries (start + piece.length + 1) (behind :: rest) := by
  cases rest with
  | nil => rfl
  | cons next rest =>
    have place : start + (piece ++ separator :: behind).length =
        start + piece.length + 1 + behind.length := by
      rw [length_append, length_cons]
      omega
    rw [boundaries, boundaries, place]

theorem lt_of_mem_boundaries (nonempty : Nonempty left) (member : place ∈ boundaries start left) :
    start < place := by
  induction left generalizing start with
  | nil => cases member
  | cons piece rest ih =>
    cases rest with
    | nil => cases member
    | cons next rest =>
      have positive := length_pos_iff.mpr (nonempty piece mem_cons_self)
      cases mem_cons.mp member with
      | inl same => omega
      | inr later =>
        have := ih nonempty.tail later
        omega

theorem clear_self (nonempty : Nonempty left) : Clear start left left := by
  induction left generalizing start with
  | nil => exact fun place member => nomatch member
  | cons piece rest ih =>
    cases rest with
    | nil => exact fun place member => nomatch member
    | cons next rest =>
      intro place member following
      rw [boundaries] at member following
      cases mem_cons.mp member with
      | inl here =>
        cases mem_cons.mp following with
        | inl same => omega
        | inr later =>
          have := lt_of_mem_boundaries nonempty.tail later
          omega
      | inr inner =>
        cases mem_cons.mp following with
        | inl same =>
          have := lt_of_mem_boundaries nonempty.tail inner
          omega
        | inr later => exact ih nonempty.tail place inner later

theorem clear_both (nonempty : Nonempty left) (otherNonempty : Nonempty right)
    (more : left ≠ []) (otherMore : right ≠ []) :
    Clear start (piece :: left) (piece :: right) ↔ Clear (start + piece.length + 1) left right := by
  rw [Clear, boundaries_cons more, boundaries_cons otherMore]
  constructor
  · exact fun clear place member following =>
      clear place (mem_cons_of_mem _ member) (mem_cons_of_mem _ following)
  · intro clear place member following
    cases mem_cons.mp member with
    | inl here =>
      cases mem_cons.mp following with
      | inl next => omega
      | inr later =>
        have := lt_of_mem_boundaries otherNonempty later
        omega
    | inr inner =>
      cases mem_cons.mp following with
      | inl next =>
        have := lt_of_mem_boundaries nonempty inner
        omega
      | inr later => exact clear place inner later

theorem clear_left (otherNonempty : Nonempty (behind :: right)) (more : left ≠ []) :
    Clear start (piece :: left) ((piece ++ separator :: behind) :: right) ↔
      Clear (start + piece.length + 1) left (behind :: right) := by
  rw [Clear, boundaries_cons more, boundaries_cut]
  constructor
  · exact fun clear place member => clear place (mem_cons_of_mem _ member)
  · intro clear place member following
    cases mem_cons.mp member with
    | inl here =>
      have := lt_of_mem_boundaries otherNonempty following
      omega
    | inr inner => exact clear place inner following

theorem clear_right (nonempty : Nonempty (behind :: left)) (more : right ≠ []) :
    Clear start ((piece ++ separator :: behind) :: left) (piece :: right) ↔
      Clear (start + piece.length + 1) (behind :: left) right := by
  rw [Clear, boundaries_cons more, boundaries_cut]
  constructor
  · exact fun clear place member following =>
      clear place member (mem_cons_of_mem _ following)
  · intro clear place member following
    cases mem_cons.mp following with
    | inl here =>
      have := lt_of_mem_boundaries nonempty member
      omega
    | inr later => exact clear place member later

end Boundaries

section Walks

variable {α : Type} {separator : α} {piece other behind : List α} {left right : List (List α)}
  {start : Nat}

theorem Walk.symm (walk : Walk separator left right) : Walk separator right left := by
  induction walk with
  | ends => exact .ends
  | both _ ih => exact .both ih
  | left more some _ ih => exact .right more some ih
  | right more some _ ih => exact .left more some ih

theorem Walk.ends_left (walk : Walk separator [] right) : right = [] := by
  cases walk with
  | ends => rfl

theorem Walk.joined_eq (walk : Walk separator left right) :
    joined separator left = joined separator right := by
  induction walk with
  | ends => rfl
  | @both piece left right rest ih =>
    by_cases none : left = []
    · subst none
      rw [rest.ends_left]
    · have more : right ≠ [] := by
        rintro rfl
        exact none rest.symm.ends_left
      rw [joined_cons none, joined_cons more, ih]
  | left more _ _ ih => rw [joined_cons more, joined_cut, ih]
  | right more _ _ ih => rw [joined_cons more, joined_cut, ih]

theorem Walk.apart (walk : Walk separator left right) (nonempty : Nonempty left)
    (otherNonempty : Nonempty right) : Apart start left right := by
  induction walk generalizing start with
  | ends => exact ⟨fun place member => (nomatch member), fun place member => (nomatch member)⟩
  | @both piece left right rest ih =>
    by_cases none : left = []
    · subst none
      rw [rest.ends_left]
      exact ⟨fun place member => (nomatch member), fun place member => (nomatch member)⟩
    · have more : right ≠ [] := by
        rintro rfl
        exact none rest.symm.ends_left
      have later := @ih (start + piece.length + 1) nonempty.tail otherNonempty.tail
      exact ⟨(clear_both nonempty.tail otherNonempty.tail none more).mpr later.1,
        (clear_both otherNonempty.tail nonempty.tail more none).mpr later.2⟩
  | @left piece behind left right more some _ ih =>
    have cut := otherNonempty.cut some
    have later := @ih (start + piece.length + 1) nonempty.tail cut
    exact ⟨(clear_left cut more).mpr later.1, (clear_right cut more).mpr later.2⟩
  | @right piece behind left right more some _ ih =>
    have cut := nonempty.cut some
    have later := @ih (start + piece.length + 1) cut otherNonempty.tail
    exact ⟨(clear_right cut more).mpr later.1, (clear_left cut more).mpr later.2⟩

theorem walk_both (lengths : piece.length = other.length) :
    Walk separator (piece :: left) (other :: right) ↔ piece = other ∧ Walk separator left right := by
  constructor
  · intro walk
    cases walk with
    | both rest => exact ⟨rfl, rest⟩
    | left _ _ _ =>
      rw [length_append, length_cons] at lengths
      omega
    | right _ _ _ =>
      rw [length_append, length_cons] at lengths
      omega
  · rintro ⟨rfl, rest⟩
    exact .both rest

theorem walk_left (shorter : piece.length < other.length) :
    Walk separator (piece :: left) (other :: right) ↔
      left ≠ [] ∧ ∃ behind, behind ≠ [] ∧ other = piece ++ separator :: behind ∧
        Walk separator left (behind :: right) := by
  constructor
  · intro walk
    cases walk with
    | both rest => exact absurd shorter (Nat.lt_irrefl _)
    | left more some rest => exact ⟨more, _, some, rfl, rest⟩
    | right _ _ _ =>
      rw [length_append, length_cons] at shorter
      omega
  · rintro ⟨more, behind, some, rfl, rest⟩
    exact .left more some rest

theorem cut_of_joined (same : joined separator (piece :: left) = joined separator (other :: right))
    (shorter : piece.length < other.length) :
    left ≠ [] ∧ ∃ behind, other = piece ++ separator :: behind ∧
      joined separator left = joined separator (behind :: right) := by
  have more : left ≠ [] := by
    rintro rfl
    have length := @length_joined_cons α separator other right
    rw [← same, joined] at length
    omega
  refine ⟨more, ?_⟩
  rw [joined_cons more] at same
  obtain ⟨tail, whole⟩ : ∃ tail, joined separator (other :: right) = other ++ tail := by
    cases right with
    | nil => exact ⟨[], (append_nil other).symm⟩
    | cons next right => exact ⟨_, rfl⟩
  rw [whole] at same
  obtain ⟨front, split, tails⟩ | ⟨front, split, tails⟩ := append_eq_append_iff.mp same
  · cases front with
    | nil =>
      rw [split, append_nil] at shorter
      exact absurd shorter (Nat.lt_irrefl _)
    | cons first behind =>
      rw [cons_append] at tails
      obtain ⟨rfl, later⟩ := List.cons.inj tails
      refine ⟨behind, split, ?_⟩
      rw [split, joined_cut] at whole
      rw [append_assoc, cons_append] at whole
      have ends := List.cons.inj (append_cancel_left whole)
      rw [later, ← ends.2]
  · rw [split, length_append] at shorter
    omega

theorem eq_nil_of_joined (same : joined separator (piece :: left) = joined separator [other])
    (lengths : piece.length = other.length) : left = [] := by
  by_contra more
  rw [joined_cons more, joined] at same
  have total := congrArg List.length same
  rw [length_append, length_cons] at total
  omega

theorem heads_of_joined (same : joined separator (piece :: left) = joined separator (other :: right))
    (lengths : piece.length = other.length) :
    piece = other ∧ (left = [] ↔ right = []) ∧ joined separator left = joined separator right := by
  by_cases last : right = []
  · subst last
    have none := eq_nil_of_joined same lengths
    subst none
    exact ⟨same, Iff.rfl, rfl⟩
  · have more : left ≠ [] := by
      rintro rfl
      exact last (eq_nil_of_joined same.symm lengths.symm)
    rw [joined_cons more, joined_cons last] at same
    obtain ⟨heads, tails⟩ := append_inj same lengths
    exact ⟨heads, iff_of_false more last, (List.cons.inj tails).2⟩

/-- Without boundaries right behind each other nothing is cut off down to an empty piece. -/
theorem behind_ne_nil (nonempty : Nonempty left) (more : left ≠ [])
    (same : joined separator left = joined separator (behind :: right))
    (clear : Clear start (piece :: left) ((piece ++ separator :: behind) :: right)) :
    behind ≠ [] := by
  rintro rfl
  by_cases last : right = []
  · rw [last, joined] at same
    exact more (joined_eq_nil nonempty same)
  · rw [Clear, boundaries_cons more, boundaries_cons last] at clear
    refine clear _ mem_cons_self (mem_cons.mpr (Or.inl ?_))
    rw [length_append, length_singleton, Nat.add_assoc]

theorem walk_of_joined (nonempty : Nonempty left) (otherNonempty : Nonempty right)
    (same : joined separator left = joined separator right) (apart : Apart start left right) :
    Walk separator left right := by
  -- each turn takes the head off one of the lists
  induction pieces : left.length + right.length using Nat.strongRecOn
    generalizing left right start with
  | ind count ih =>
    subst pieces
    cases left with
    | nil =>
      rw [joined_eq_nil otherNonempty same.symm]
      exact .ends
    | cons piece left =>
      cases right with
      | nil => cases joined_eq_nil nonempty same
      | cons other right =>
        obtain shorter | lengths | longer := Nat.lt_trichotomy piece.length other.length
        · obtain ⟨more, behind, rfl, later⟩ := cut_of_joined same shorter
          have some := behind_ne_nil nonempty.tail more later apart.1
          have cut := otherNonempty.cut some
          apply Walk.left more some
          apply ih (left.length + (behind :: right).length) _ nonempty.tail cut later
          · exact ⟨(clear_left cut more).mp apart.1, (clear_right cut more).mp apart.2⟩
          · rfl
          · simp only [length_cons]
            omega
        · obtain ⟨rfl, none, later⟩ := heads_of_joined same lengths
          apply Walk.both
          have clear : Apart (start + piece.length + 1) left right := by
            by_cases last : left = []
            · rw [last, none.mp last]
              exact ⟨fun place member => (nomatch member), fun place member => (nomatch member)⟩
            · have more : right ≠ [] := fun empty => last (none.mpr empty)
              exact ⟨(clear_both nonempty.tail otherNonempty.tail last more).mp apart.1,
                (clear_both otherNonempty.tail nonempty.tail more last).mp apart.2⟩
          apply ih (left.length + right.length) _ nonempty.tail otherNonempty.tail later clear rfl
          simp only [length_cons]
          omega
        · obtain ⟨more, behind, rfl, later⟩ := cut_of_joined same.symm longer
          have some := behind_ne_nil otherNonempty.tail more later apart.2
          have cut := nonempty.cut some
          apply Walk.right more some
          apply ih ((behind :: left).length + right.length) _ cut otherNonempty.tail later.symm
          · exact ⟨(clear_right cut more).mp apart.1, (clear_left cut more).mp apart.2⟩
          · rfl
          · simp only [length_cons]
            omega

theorem walk_iff (start : Nat) (nonempty : Nonempty left) (otherNonempty : Nonempty right) :
    Walk separator left right ↔
      joined separator left = joined separator right ∧ Apart start left right :=
  ⟨fun walk => ⟨walk.joined_eq, walk.apart nonempty otherNonempty⟩,
    fun both => walk_of_joined nonempty otherNonempty both.1 both.2⟩

end Walks

end OpenCore.JoinedPieces
