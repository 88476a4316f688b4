import OpenCore.Base
import Mathlib.Algebra.Group.Nat.Defs
import Mathlib.Data.List.Lex

/-!
The schema of a dictionary is searched by halves. The middle is computed in 32 bits, so the
search ends for every key as long as the sum of two indices fits.
-/

namespace OpenCore.ConfigSchema

open Base List

structure Name where
  chars : List UInt8
  nonzero : 0 ∉ chars

section Compare

def asciiStrCmp : List UInt8 → List UInt8 → Int
  | [], [] => 0
  | [], second :: _ => 0 - second.toNat
  | first :: _, [] => first.toNat
  | first :: rest, second :: rest' =>
    if first = second then asciiStrCmp rest rest' else first.toNat - second.toNat

def order (chars : List UInt8) : List Nat := chars.map UInt8.toNat

theorem asciiStrCmp_cases : ∀ {first second : List UInt8}, 0 ∉ first → 0 ∉ second →
    asciiStrCmp first second < 0 ∧ order first < order second ∨
      asciiStrCmp first second = 0 ∧ first = second ∨
        0 < asciiStrCmp first second ∧ order second < order first
  | [], [], _, _ => .inr (.inl ⟨rfl, rfl⟩)
  | [], second :: _, _, nonzero => by
    have positive : second.toNat ≠ 0 := fun zero =>
      nonzero (mem_cons.mpr (.inl (UInt8.toNat_inj.mp zero).symm))
    exact .inl ⟨by rw [asciiStrCmp]; omega, nil_lt_cons _ _⟩
  | first :: _, [], nonzero, _ => by
    have positive : first.toNat ≠ 0 := fun zero =>
      nonzero (mem_cons.mpr (.inl (UInt8.toNat_inj.mp zero).symm))
    exact .inr (.inr ⟨by rw [asciiStrCmp]; omega, nil_lt_cons _ _⟩)
  | first :: rest, second :: rest', nonzero, nonzero' => by
    rw [asciiStrCmp, order, order, map_cons, map_cons, cons_lt_cons_iff, cons_lt_cons_iff]
    by_cases same : first = second
    · subst same
      rw [if_pos rfl]
      rcases asciiStrCmp_cases (fun mem => nonzero (mem_cons_of_mem _ mem))
        (fun mem => nonzero' (mem_cons_of_mem _ mem)) with below | equal | above
      · exact .inl ⟨below.1, .inr ⟨rfl, below.2⟩⟩
      · exact .inr (.inl ⟨equal.1, congrArg _ equal.2⟩)
      · exact .inr (.inr ⟨above.1, .inr ⟨rfl, above.2⟩⟩)
    · rw [if_neg same]
      have apart : first.toNat ≠ second.toNat := fun equal => same (UInt8.toNat_inj.mp equal)
      rcases Nat.lt_or_gt_of_ne apart with below | above
      · exact .inl ⟨by omega, .inl below⟩
      · exact .inr (.inr ⟨by omega, .inl above⟩)

end Compare

structure SortedList where
  names : List Name
  counted : names.length < u32
  sorted : names.Pairwise fun first second => asciiStrCmp first.chars second.chars < 0

inductive Outcome where
  | entry (index : Nat)
  | null
  | fault

section Search

def searchStep (names : List Name) (name : Name) (start stop : Nat) : Outcome ⊕ (Nat × Nat) :=
  if start ≤ stop then
    let curr := (start + stop) % u32 / 2
    match names[curr]? with
    | none => .inl .fault
    | some schema =>
      let cmp := asciiStrCmp schema.chars name.chars
      if cmp = 0 then .inl (.entry curr)
      else if cmp < 0 then .inr (curr + 1, stop)
      else if 0 < curr then .inr (start, curr - 1)
      else .inl .null
  else .inl .null

def searchLoop (names : List Name) (name : Name) : Nat → Nat → Nat → Option Outcome
  | 0, _, _ => none
  | turns + 1, start, stop =>
    match searchStep names name start stop with
    | .inl outcome => some outcome
    | .inr (start', stop') => searchLoop names name turns start' stop'

def lookupConfigSchema (names : List Name) (name : Name) (turns : Nat) : Option Outcome :=
  if names.length = 0 then some .null
  else searchLoop names name turns 0 (names.length - 1)

end Search

inductive Answers (names : List Name) (name : Name) : Outcome → Prop
  | entry {index : Nat} (listed : names[index]? = some name) : Answers names name (.entry index)
  | null (missing : name ∉ names) : Answers names name .null

def Finds (list : SortedList) (name : Name) : Prop :=
  ∃ turns outcome, lookupConfigSchema list.names name turns = some outcome ∧
    Answers list.names name outcome

section Halves

variable {list : SortedList} {name schema : Name} {start stop : Nat}

theorem Name.eq_of_chars {first second : Name} (same : first.chars = second.chars) : first = second := by
  cases first
  cases same
  rfl

theorem sorted_lt {index index' : Nat} {first second : Name} (less : index < index')
    (at' : list.names[index]? = some first) (at'' : list.names[index']? = some second) :
    order first.chars < order second.chars := by
  obtain ⟨inside, rfl⟩ := List.getElem?_eq_some_iff.mp at'
  obtain ⟨inside', rfl⟩ := List.getElem?_eq_some_iff.mp at''
  have cmp := pairwise_iff_getElem.mp list.sorted index index' inside inside' less
  rcases asciiStrCmp_cases list.names[index].nonzero list.names[index'].nonzero with below | equal | above
  · exact below.2
  · omega
  · omega

structure Between (list : SortedList) (name : Name) (start stop : Nat) : Prop where
  inside : stop < list.names.length
  before : ∀ index schema, index < start → list.names[index]? = some schema →
    order schema.chars < order name.chars
  behind : ∀ index schema, stop < index → list.names[index]? = some schema →
    order name.chars < order schema.chars

theorem Between.missing (between : Between list name start stop) (ends : stop < start) :
    name ∉ list.names := by
  intro member
  obtain ⟨index, listed⟩ := mem_iff_getElem?.mp member
  rcases Nat.lt_or_ge index start with before | behind
  · exact absurd (between.before index name before listed) (lt_irrefl _)
  · exact absurd (between.behind index name (by omega) listed) (lt_irrefl _)

theorem searchLoop_finds {turns : Nat} (fits : list.names.length ≤ 2 ^ 31)
    (between : Between list name start stop) (enough : stop + 1 - start < turns) :
    ∃ outcome, searchLoop list.names name turns start stop = some outcome ∧
      Answers list.names name outcome := by
  induction turns generalizing start stop with
  | zero => omega
  | succ turns ih =>
    rw [searchLoop, searchStep]
    by_cases work : start ≤ stop
    · have inside := between.inside
      have curr : (start + stop) % u32 / 2 = (start + stop) / 2 := by
        rw [Nat.mod_eq_of_lt (by rw [u32_val]; omega)]
      rw [if_pos work, curr]
      generalize middle : (start + stop) / 2 = curr
      have listed := getElem?_eq_getElem (show curr < list.names.length by omega)
      generalize list.names[curr] = schema at listed
      simp only [listed]
      rcases asciiStrCmp_cases schema.nonzero name.nonzero with ⟨cmp, below⟩ | ⟨cmp, same⟩ | ⟨cmp, above⟩
      · rw [if_neg (Int.ne_of_lt cmp), if_pos cmp]
        refine ih ⟨inside, fun index other before listed' => ?_, between.behind⟩ (by omega)
        rcases Nat.lt_or_eq_of_le (Nat.le_of_lt_succ before) with less | rfl
        · exact (sorted_lt less listed' listed).trans below
        · cases listed.symm.trans listed'
          exact below
      · obtain rfl := Name.eq_of_chars same
        rw [if_pos cmp]
        exact ⟨_, rfl, .entry listed⟩
      · rw [if_neg (Int.ne_of_gt cmp), if_neg (Int.not_lt.mpr (Int.le_of_lt cmp))]
        have behind : ∀ index other, curr ≤ index → list.names[index]? = some other →
            order name.chars < order other.chars := by
          intro index other follows listed'
          rcases Nat.lt_or_eq_of_le follows with less | rfl
          · exact above.trans (sorted_lt less listed listed')
          · cases listed.symm.trans listed'
            exact above
        by_cases positive : 0 < curr
        · rw [if_pos positive]
          exact ih ⟨by omega, between.before, fun index other follows => behind index other (by omega)⟩
            (by omega)
        · rw [if_neg positive]
          refine ⟨_, rfl, .null fun member => ?_⟩
          obtain ⟨index, listed'⟩ := mem_iff_getElem?.mp member
          exact absurd (behind index name (by omega) listed') (lt_irrefl _)
    · rw [if_neg work]
      exact ⟨_, rfl, .null (between.missing (by omega))⟩

/-- The middle never gets to the last index, and `Start` stays in front of it. -/
theorem searchLoop_spins {turns : Nat} (long : 2 ^ 31 < list.names.length)
    (last : list.names[list.names.length - 1]? = some name) (start : Nat) (front : start ≤ 2 ^ 31) :
    searchLoop list.names name turns start (list.names.length - 1) = none := by
  induction turns generalizing start with
  | zero => rfl
  | succ turns ih =>
    rw [searchLoop, searchStep, if_pos (by omega)]
    have half : (start + (list.names.length - 1)) % u32 / 2 < 2 ^ 31 := by
      have := Nat.mod_lt (start + (list.names.length - 1)) (show 0 < u32 by decide)
      rw [u32_val] at this ⊢
      omega
    generalize (start + (list.names.length - 1)) % u32 / 2 = curr at half
    have listed := getElem?_eq_getElem (show curr < list.names.length by omega)
    generalize list.names[curr] = schema at listed
    have less := sorted_lt (by omega) listed last
    simp only [listed]
    rcases asciiStrCmp_cases schema.nonzero name.nonzero with ⟨cmp, -⟩ | ⟨-, same⟩ | ⟨-, above⟩
    · rw [if_neg (Int.ne_of_lt cmp), if_pos cmp]
      exact ih _ (by omega)
    · rw [same] at less
      exact absurd less (lt_irrefl _)
    · exact absurd (less.trans above) (lt_irrefl _)

theorem last_not_found (long : 2 ^ 31 < list.names.length)
    (last : list.names[list.names.length - 1]? = some name) : ¬ Finds list name := by
  rintro ⟨turns, outcome, found, -⟩
  rw [lookupConfigSchema, if_neg (by omega), searchLoop_spins long last 0 (Nat.zero_le _)] at found
  cases found

/-- Every key is searched for rightly where the sum of the indices fits. -/
theorem lookupConfigSchema_finds_iff (list : SortedList) :
    (∀ name, Finds list name) ↔ list.names.length ≤ 2 ^ 31 := by
  constructor
  · intro finds
    by_contra long
    have listed := getElem?_eq_getElem (show list.names.length - 1 < list.names.length by omega)
    exact last_not_found (by omega) listed (finds _)
  · intro fits name
    by_cases empty : list.names.length = 0
    · refine ⟨0, .null, if_pos empty, .null ?_⟩
      rw [eq_nil_of_length_eq_zero empty]
      exact not_mem_nil
    · have between : Between list name 0 (list.names.length - 1) := by
        refine ⟨Nat.sub_one_lt empty, fun _ _ before => absurd before (Nat.not_lt_zero _), ?_⟩
        intro index schema behind listed
        have inside := (List.getElem?_eq_some_iff.mp listed).1
        omega
      obtain ⟨outcome, found, answers⟩ := searchLoop_finds fits between (Nat.lt_succ_self _)
      exact ⟨_, outcome, (if_neg empty).trans found, answers⟩

end Halves

section Samples

def prepend (char : Nat) (name : Name) : Name where
  chars := UInt8.ofNat (char % 128 + 1) :: name.chars
  nonzero := by
    intro member
    rcases mem_cons.mp member with zero | inside
    · have value := congrArg UInt8.toNat zero
      rw [UInt8.toNat_ofNat', UInt8.toNat_zero] at value
      omega
    · exact name.nonzero inside

def allNames : Nat → List Name
  | 0 => [⟨[], not_mem_nil⟩]
  | width + 1 => (List.range 128).flatMap fun char => (allNames width).map (prepend char)

theorem allNames_length (width : Nat) : (allNames width).length = 128 ^ width := by
  induction width with
  | zero => rfl
  | succ width ih =>
    rw [allNames, length_flatMap]
    simp only [length_map, ih, map_const', length_range, sum_replicate_nat]
    rw [pow_succ, mul_comm]

theorem allNames_sorted (width : Nat) :
    (allNames width).Pairwise fun first second => asciiStrCmp first.chars second.chars < 0 := by
  induction width with
  | zero => exact pairwise_singleton _ _
  | succ width ih =>
    rw [allNames, pairwise_flatMap]
    constructor
    · intro char _
      rw [pairwise_map]
      exact ih.imp fun less => by rwa [prepend, prepend, asciiStrCmp, if_pos rfl]
    · refine pairwise_lt_range.imp_of_mem fun {char char'} inside inside' less => ?_
      intro first member second member'
      obtain ⟨-, -, rfl⟩ := mem_map.mp member
      obtain ⟨-, -, rfl⟩ := mem_map.mp member'
      rw [mem_range] at inside inside'
      have value := @UInt8.toNat_ofNat' (char % 128 + 1)
      have value' := @UInt8.toNat_ofNat' (char' % 128 + 1)
      rw [prepend, prepend, asciiStrCmp, if_neg (fun same => by rw [same] at value; omega)]
      omega

def longList : SortedList where
  names := (allNames 5).take (2 ^ 31 + 1)
  counted := by
    rw [length_take, allNames_length]
    decide
  sorted := (allNames_sorted 5).sublist (take_sublist _ _)

theorem longList_not_searched : ∃ name, name ∈ longList.names ∧ ¬ Finds longList name := by
  have length : longList.names.length = 2 ^ 31 + 1 := by
    rw [longList, length_take, allNames_length]
    decide
  have listed := getElem?_eq_getElem (show longList.names.length - 1 < longList.names.length by omega)
  exact ⟨_, mem_of_getElem? listed, last_not_found (by omega) listed⟩

end Samples

end OpenCore.ConfigSchema
