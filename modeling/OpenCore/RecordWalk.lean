import Mathlib.Data.List.Basic

/-!
Records of varying length that lie one after the other, each of them giving the
place of the next. A search goes from one to the next until it meets a wanted one
or the end, and the search is repeated after each hit. Where the records tile their
region, the repeated search looks at every one of them once and ends.
-/

namespace OpenCore.RecordWalk

variable (next : Nat → Nat)

def starts : Nat → Nat → List Nat
  | 0, _ => []
  | count + 1, start => start :: starts count (next start)

def Tiled : Nat → Nat → Nat → Prop
  | 0, start, stop => start = stop
  | count + 1, start, stop => start < next start ∧ Tiled count (next start) stop

def search (wanted : Nat → Bool) (stop : Nat) : Nat → Nat → Option (List Nat × Option Nat)
  | 0, _ => none
  | fuel + 1, start =>
    if start < stop then
      if wanted start then some ([start], some start)
      else (search wanted stop fuel (next start)).map fun (visited, hit) => (start :: visited, hit)
    else some ([], none)

def searchAll (wanted : Nat → Bool) (stop : Nat) : Nat → Nat → Option (List Nat)
  | 0, _ => none
  | fuel + 1, start =>
    match search next wanted stop (fuel + 1) start with
    | none => none
    | some (visited, none) => some visited
    | some (visited, some hit) =>
      (searchAll wanted stop fuel (next hit)).map fun rest => visited ++ rest

section Tiling
variable {next : Nat → Nat} {count start stop : Nat}

@[simp] theorem length_starts : (starts next count start).length = count := by
  induction count generalizing start with
  | zero => rfl
  | succ count ih => rw [starts, List.length_cons, ih]

theorem Tiled.le (tiled : Tiled next count start stop) : start ≤ stop := by
  induction count generalizing start with
  | zero => exact Nat.le_of_eq tiled
  | succ count ih => exact Nat.le_trans (Nat.le_of_lt tiled.1) (ih tiled.2)

theorem Tiled.next_le (tiled : Tiled next count start stop) {place : Nat}
    (member : place ∈ starts next count start) :
    start ≤ place ∧ place < next place ∧ next place ≤ stop := by
  induction count generalizing start with
  | zero => cases member
  | succ count ih =>
    rw [starts, List.mem_cons] at member
    rcases member with rfl | later
    · exact ⟨Nat.le_refl _, tiled.1, tiled.2.le⟩
    · obtain ⟨above, upwards, inside⟩ := ih tiled.2 later
      exact ⟨Nat.le_trans (Nat.le_of_lt tiled.1) above, upwards, inside⟩

theorem search_tiled (wanted : Nat → Bool) (tiled : Tiled next count start stop) {fuel : Nat}
    (enough : count < fuel) :
    search next wanted stop fuel start = some (starts next count start, none) ∨
      ∃ before after hit, count = before + 1 + after ∧
        search next wanted stop fuel start = some (starts next (before + 1) start, some hit) ∧
        starts next count start = starts next (before + 1) start ++ starts next after (next hit) ∧
        Tiled next after (next hit) stop := by
  induction count generalizing start fuel with
  | zero =>
    obtain ⟨fuel, rfl⟩ : ∃ less, fuel = less + 1 := ⟨fuel - 1, by omega⟩
    have ended : ¬start < stop := Nat.not_lt.mpr (Nat.le_of_eq (Eq.symm tiled))
    left
    rw [search, if_neg ended, starts]
  | succ count ih =>
    obtain ⟨fuel, rfl⟩ : ∃ less, fuel = less + 1 := ⟨fuel - 1, by omega⟩
    have inside : start < stop := Nat.lt_of_lt_of_le tiled.1 tiled.2.le
    rw [search, if_pos inside]
    by_cases found : wanted start = true
    · right
      rw [if_pos found]
      exact ⟨0, count, start, by omega, rfl, rfl, tiled.2⟩
    · rw [if_neg found]
      rcases ih tiled.2 (show count < fuel by omega) with
        none | ⟨before, after, hit, counted, run, split, rest⟩
      · left
        rw [none]
        rfl
      · right
        refine ⟨before + 1, after, hit, by omega, ?_, ?_, rest⟩
        · rw [run]
          rfl
        · rw [starts, split]
          rfl

theorem searchAll_tiled (wanted : Nat → Bool) (tiled : Tiled next count start stop) {fuel : Nat}
    (enough : count < fuel) :
    searchAll next wanted stop fuel start = some (starts next count start) := by
  induction fuel generalizing count start with
  | zero => omega
  | succ fuel ih =>
    rcases search_tiled wanted tiled enough with
      none | ⟨before, after, hit, counted, run, split, rest⟩
    · rw [searchAll, none]
    · rw [searchAll, run]
      simp only
      rw [ih rest (by omega), split]
      rfl

end Tiling

end OpenCore.RecordWalk
