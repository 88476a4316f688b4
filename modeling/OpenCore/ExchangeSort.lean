import Mathlib.Data.List.Perm.Basic

/-!
Sorting an array by exchanges. Every entry in turn is compared with those behind it and trades
places with each one of a smaller key, so that the least of them ends up in its place.
-/

namespace OpenCore.ExchangeSort

variable {α : Type} (key : α → Nat)

def exchange : α → List α → α × List α
  | entry, [] => (entry, [])
  | entry, next :: rest =>
    if key next < key entry then
      let (least, left) := exchange next rest
      (least, entry :: left)
    else
      let (least, left) := exchange entry rest
      (least, next :: left)

def sortFirst : Nat → List α → List α
  | count + 1, entry :: rest =>
    let (least, left) := exchange key entry rest
    least :: sortFirst count left
  | _, entries => entries

def exchangeSort (entries : List α) : List α := sortFirst key entries.length entries

variable {key}

theorem exchange_perm (entry : α) (rest : List α) :
    ((exchange key entry rest).1 :: (exchange key entry rest).2).Perm (entry :: rest) := by
  induction rest generalizing entry with
  | nil => rfl
  | cons next rest ih =>
    unfold exchange
    split
    · exact (List.Perm.swap _ _ _).trans ((ih next).cons entry)
    · exact (List.Perm.swap _ _ _).trans (((ih entry).cons next).trans (List.Perm.swap _ _ _))

theorem exchange_least (entry : α) (rest : List α) :
    key (exchange key entry rest).1 ≤ key entry ∧
      ∀ other ∈ (exchange key entry rest).2, key (exchange key entry rest).1 ≤ key other := by
  induction rest generalizing entry with
  | nil => exact ⟨Nat.le_refl _, fun _ member => by cases member⟩
  | cons next rest ih =>
    unfold exchange
    split
    · rename_i smaller
      obtain ⟨least, others⟩ := ih next
      refine ⟨Nat.le_trans least (Nat.le_of_lt smaller), fun other member => ?_⟩
      rcases List.mem_cons.mp member with rfl | later
      · exact Nat.le_trans least (Nat.le_of_lt smaller)
      · exact others other later
    · rename_i larger
      obtain ⟨least, others⟩ := ih entry
      refine ⟨least, fun other member => ?_⟩
      rcases List.mem_cons.mp member with rfl | later
      · exact Nat.le_trans least (Nat.le_of_not_lt larger)
      · exact others other later

theorem exchange_length (entry : α) (rest : List α) :
    (exchange key entry rest).2.length = rest.length :=
  Nat.succ.inj (exchange_perm entry rest).length_eq

theorem sortFirst_perm (count : Nat) (entries : List α) :
    (sortFirst key count entries).Perm entries := by
  induction count generalizing entries with
  | zero => rfl
  | succ count ih =>
    cases entries with
    | nil => rfl
    | cons entry rest => exact ((ih _).cons _).trans (exchange_perm entry rest)

theorem exchangeSort_perm (entries : List α) : (exchangeSort key entries).Perm entries :=
  sortFirst_perm _ entries

theorem sortFirst_sorted {count : Nat} {entries : List α} (enough : entries.length ≤ count) :
    (sortFirst key count entries).Pairwise fun left right => key left ≤ key right := by
  induction count generalizing entries with
  | zero =>
    rw [List.length_eq_zero_iff.mp (Nat.le_zero.mp enough)]
    exact List.Pairwise.nil
  | succ count ih =>
    cases entries with
    | nil => exact List.Pairwise.nil
    | cons entry rest =>
      refine List.Pairwise.cons ?_ (ih ?_)
      · intro other member
        have left := (sortFirst_perm _ _).mem_iff.mp member
        exact (exchange_least entry rest).2 other left
      · rw [exchange_length]
        exact Nat.le_of_succ_le_succ enough

theorem exchangeSort_sorted (entries : List α) :
    (exchangeSort key entries).Pairwise fun left right => key left ≤ key right :=
  sortFirst_sorted (Nat.le_refl _)

end OpenCore.ExchangeSort
