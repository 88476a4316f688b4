import Mathlib.Data.List.Basic

/-!
The words of a text, which a blank keeps apart, over any alphabet. Runs of blanks
count as one; a text is taken apart at its first blank, and an induction along the
blanks gives what a word does to the text in front of it.
-/

namespace OpenCore.Words

open List

variable {α : Type} [DecidableEq α] (blank : α)

def words (text : List α) : List (List α) :=
  (text.splitOn blank).filter fun word => word ≠ []

def collapse : List α → List α
  | [] => []
  | [ch] => [ch]
  | first :: second :: rest =>
    if first = blank ∧ second = blank then collapse (second :: rest)
    else first :: collapse (second :: rest)

def squeeze (text : List α) : List α := collapse blank (text.dropWhile fun ch => ch = blank)

variable {blank} {word front rest text : List α}

@[simp] theorem words_nil : words blank [] = [] := by rw [words, splitOn_nil]; rfl

theorem words_append_blank (front rest : List α) :
    words blank (front ++ blank :: rest) = words blank front ++ words blank rest := by
  rw [words, splitOn_append_cons_self, filter_append]
  rfl

theorem words_cons_blank (rest : List α) : words blank (blank :: rest) = words blank rest := by
  simpa using words_append_blank [] rest

theorem words_clear (clear : blank ∉ word) : words blank word = if word = [] then [] else [word] := by
  rw [words, splitOn_eq_singleton clear, filter_singleton]
  by_cases empty : word = []
  · rw [if_pos empty, empty]
    rfl
  · rw [if_neg empty, decide_eq_true empty]
    rfl

/-- Along the blanks: a text without one, or a first word with the rest behind it. -/
theorem blank_induction {motive : List α → Prop} (last : ∀ word, blank ∉ word → motive word)
    (step : ∀ word rest, blank ∉ word → motive rest → motive (word ++ blank :: rest))
    (text : List α) : motive text := by
  induction size : text.length using Nat.strongRecOn generalizing text with
  | ind size ih =>
    by_cases member : blank ∈ text
    · obtain ⟨word, rest, rfl, clear⟩ := eq_append_cons_of_mem member
      refine step word rest clear (ih rest.length ?_ rest rfl)
      rw [← size, length_append, length_cons]
      omega
    · exact last text member

theorem mem_words_clear (clear : blank ∉ rest) (member : word ∈ words blank rest) :
    word = rest ∧ word ≠ [] := by
  rw [words_clear clear] at member
  split at member
  next => exact absurd member not_mem_nil
  next some =>
    obtain rfl := mem_singleton.mp member
    exact ⟨rfl, some⟩

theorem mem_words (member : word ∈ words blank text) : word ≠ [] ∧ blank ∉ word := by
  induction text using @blank_induction α _ blank with
  | last text clear =>
    obtain ⟨rfl, some⟩ := mem_words_clear clear member
    exact ⟨some, clear⟩
  | step first rest clear ih =>
    rw [words_append_blank] at member
    rcases mem_append.mp member with front | back
    · obtain ⟨rfl, some⟩ := mem_words_clear clear front
      exact ⟨some, clear⟩
    · exact ih back

theorem words_flatten (text : List α) :
    (words blank text).flatten = text.filter fun ch => ch ≠ blank := by
  have kept : ∀ word, blank ∉ word →
      (words blank word).flatten = word.filter fun ch => ch ≠ blank := by
    intro word clear
    have all : word.filter (fun ch => decide (ch ≠ blank)) = word :=
      filter_eq_self.mpr fun ch member => decide_eq_true fun same => clear (same ▸ member)
    rw [words_clear clear, all]
    split
    next empty => rw [empty]; rfl
    next => rw [flatten_singleton]
  induction text using @blank_induction α _ blank with
  | last word clear => exact kept word clear
  | step word rest clear ih =>
    rw [words_append_blank, flatten_append, ih, kept word clear, filter_append,
      filter_cons_of_neg (by simp)]

section Collapse

theorem collapse_head (blank first : α) (rest : List α) :
    ∃ behind, collapse blank (first :: rest) = first :: behind := by
  induction rest with
  | nil => exact ⟨[], rfl⟩
  | cons second rest ih =>
    rw [collapse]
    split
    next both =>
      rw [both.2.trans both.1.symm]
      exact ih
    next => exact ⟨_, rfl⟩

theorem collapse_cons (first : α) (rest : List α) :
    collapse blank (first :: rest) =
      if first = blank ∧ rest.head? = some blank then collapse blank rest
      else first :: collapse blank rest := by
  cases rest with
  | nil => rw [if_neg fun both => by cases both.2]; rfl
  | cons second rest =>
    rw [collapse]
    simp only [head?_cons, Option.some.injEq]

theorem collapse_clear (clear : blank ∉ word) (rest : List α) :
    collapse blank (word ++ blank :: rest) = word ++ collapse blank (blank :: rest) := by
  induction word with
  | nil => rfl
  | cons first word ih =>
    have other : first ≠ blank := fun same => clear (same ▸ mem_cons_self)
    have behind := ih fun member => clear (mem_cons_of_mem _ member)
    cases word with
    | nil =>
      rw [singleton_append, collapse, if_neg fun both => other both.1]
      rfl
    | cons second word =>
      rw [cons_append, cons_append, collapse, if_neg fun both => other both.1,
        ← cons_append, behind]
      rfl

theorem collapse_of_clear (clear : blank ∉ word) : collapse blank word = word := by
  induction word with
  | nil => rfl
  | cons first word ih =>
    have other : first ≠ blank := fun same => clear (same ▸ mem_cons_self)
    have behind := ih fun member => clear (mem_cons_of_mem _ member)
    cases word with
    | nil => rfl
    | cons second word => rw [collapse, if_neg fun both => other both.1, behind]

theorem words_collapse (text : List α) : words blank (collapse blank text) = words blank text := by
  induction text using @blank_induction α _ blank with
  | last word clear => rw [collapse_of_clear clear]
  | step word rest clear ih =>
    rw [collapse_clear clear, words_append_blank]
    cases rest with
    | nil => exact words_append_blank word []
    | cons second rest =>
      rw [collapse]
      split
      next both =>
        -- The run goes on, and what is left of it still starts with a blank.
        rw [both.2] at ih ⊢
        obtain ⟨behind, shrunk⟩ := collapse_head blank blank rest
        rw [shrunk] at ih ⊢
        rw [words_append_blank, ← ih, words_cons_blank]
      next => rw [words_append_blank, ih]

theorem collapse_collapse (text : List α) :
    collapse blank (collapse blank text) = collapse blank text := by
  induction text using collapse.induct blank with
  | case1 => rfl
  | case2 ch => rfl
  | case3 first second rest both ih =>
    rw [collapse, if_pos both]
    exact ih
  | case4 first second rest other ih =>
    obtain ⟨behind, shrunk⟩ := collapse_head blank second rest
    rw [collapse, if_neg other]
    rw [shrunk] at ih ⊢
    rw [collapse, if_neg other, ih]

theorem collapse_length_le (text : List α) : (collapse blank text).length ≤ text.length := by
  induction text using collapse.induct blank with
  | case1 => exact Nat.le_refl _
  | case2 ch => exact Nat.le_refl _
  | case3 first second rest both ih =>
    rw [collapse, if_pos both]
    exact Nat.le_trans ih (Nat.le_succ _)
  | case4 first second rest other ih =>
    rw [collapse, if_neg other]
    exact Nat.succ_le_succ ih

theorem mem_of_mem_collapse {ch : α} (member : ch ∈ collapse blank text) :
    ch ∈ text := by
  induction text using collapse.induct blank with
  | case1 => exact member
  | case2 => exact member
  | case3 first second rest both ih =>
    rw [collapse, if_pos both] at member
    exact mem_cons_of_mem _ (ih member)
  | case4 first second rest other ih =>
    rw [collapse, if_neg other] at member
    rcases mem_cons.mp member with rfl | behind
    · exact mem_cons_self
    · exact mem_cons_of_mem _ (ih behind)

theorem words_squeeze (text : List α) : words blank (squeeze blank text) = words blank text := by
  rw [squeeze, words_collapse]
  induction text with
  | nil => rfl
  | cons ch rest ih =>
    by_cases same : ch = blank
    · rw [same, dropWhile_cons_of_pos (by simp), ih, words_cons_blank]
    · rw [dropWhile_cons_of_neg (by simpa using same)]

theorem squeeze_squeeze (text : List α) : squeeze blank (squeeze blank text) = squeeze blank text := by
  have stays : (squeeze blank text).dropWhile (fun ch => decide (ch = blank)) =
      squeeze blank text := by
    rw [squeeze]
    cases dropped : text.dropWhile (fun ch => decide (ch = blank)) with
    | nil => rfl
    | cons first rest =>
      have other := head?_dropWhile_not (fun ch => decide (ch = blank)) text
      rw [dropped] at other
      obtain ⟨behind, shrunk⟩ := collapse_head blank first rest
      rw [shrunk]
      exact dropWhile_cons_of_neg (by simpa using other)
  rw [squeeze, stays, squeeze, collapse_collapse]

theorem squeeze_length_le (text : List α) : (squeeze blank text).length ≤ text.length :=
  Nat.le_trans (collapse_length_le _) (dropWhile_sublist _).length_le

theorem mem_of_mem_squeeze {ch : α} (member : ch ∈ squeeze blank text) :
    ch ∈ text :=
  (dropWhile_sublist _).subset (mem_of_mem_collapse member)

end Collapse

end OpenCore.Words
