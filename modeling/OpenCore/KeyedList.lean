import Mathlib.Data.List.Nodup

/-!
A list of entries that are told apart by a key: the first entry of a key is
found, changed in place, taken out, or a new one is put behind the others.
-/

namespace OpenCore.KeyedList

open List

variable {α κ : Type} [DecidableEq κ] (keyOf : α → κ)

def find (key : κ) (entries : List α) : Option α :=
  entries.find? fun entry => decide (keyOf entry = key)

def change (key : κ) (changed : α → α) : List α → List α
  | [] => []
  | entry :: rest =>
    if keyOf entry = key then changed entry :: rest else entry :: change key changed rest

def erase (key : κ) (entries : List α) : List α :=
  entries.eraseP fun entry => decide (keyOf entry = key)

def Unique (entries : List α) : Prop := (entries.map keyOf).Nodup

section Reading

variable {keyOf} {key other : κ} {entries : List α} {changed : α → α} {entry : α}

theorem find_cons (first : α) :
    find keyOf key (first :: entries) =
      if keyOf first = key then some first else find keyOf key entries := by
  by_cases hit : keyOf first = key <;> simp [find, hit]

theorem find_mem (found : find keyOf key entries = some entry) :
    entry ∈ entries ∧ keyOf entry = key := by
  have member := mem_of_find?_eq_some found
  have hit := find?_some found
  exact ⟨member, by simpa using hit⟩

theorem find_eq_none : find keyOf key entries = none ↔ ∀ entry ∈ entries, keyOf entry ≠ key := by
  simp [find]

theorem find_of_mem (unique : Unique keyOf entries) (member : entry ∈ entries) :
    find keyOf (keyOf entry) entries = some entry := by
  induction entries with
  | nil => cases member
  | cons first rest ih =>
    obtain ⟨absent, unique⟩ := nodup_cons.mp unique
    rw [find_cons]
    rcases mem_cons.mp member with same | behind
    · rw [if_pos (same ▸ rfl), same]
    · have apart : keyOf first ≠ keyOf entry := fun same =>
        absent (mem_map.mpr ⟨entry, behind, same.symm⟩)
      rw [if_neg apart]
      exact ih unique behind

theorem find_append_fresh (fresh : find keyOf (keyOf entry) entries = none) :
    find keyOf key (entries ++ [entry]) =
      if keyOf entry = key then some entry else find keyOf key entries := by
  by_cases hit : keyOf entry = key
  · subst hit
    have absent : entries.find? (fun e => decide (keyOf e = keyOf entry)) = none := fresh
    simp [find, find?_append, absent]
  · simp [find, find?_append, hit]

theorem find_change (keeps : ∀ entry, keyOf (changed entry) = keyOf entry) :
    find keyOf other (change keyOf key changed entries) =
      if other = key then (find keyOf key entries).map changed
      else find keyOf other entries := by
  induction entries with
  | nil => simp [change, find]
  | cons first rest ih =>
    by_cases hit : keyOf first = key
    · by_cases same : other = key
      · subst same
        simp [change, hit, find_cons, keeps]
      · have apart : ¬ key = other := fun equal => same equal.symm
        simp [change, hit, find_cons, keeps, same, apart]
    · by_cases same : other = key
      · subst same
        simp only [change, hit, if_false, find_cons, if_true] at ih ⊢
        exact ih
      · simp only [change, hit, if_false, find_cons, same] at ih ⊢
        rw [ih]

theorem find_erase (unique : Unique keyOf entries) :
    find keyOf other (erase keyOf key entries) =
      if other = key then none else find keyOf other entries := by
  induction entries with
  | nil => simp [erase, find]
  | cons first rest ih =>
    obtain ⟨absent, unique⟩ := nodup_cons.mp unique
    by_cases hit : keyOf first = key
    · have erased : erase keyOf key (first :: rest) = rest := by simp [erase, hit]
      by_cases same : other = key
      · subst same
        rw [erased, if_pos rfl, find_eq_none]
        intro entry member equal
        exact absent (mem_map.mpr ⟨entry, member, equal.trans hit.symm⟩)
      · have apart : ¬ key = other := fun equal => same equal.symm
        rw [erased, find_cons, hit]
        simp [same, apart]
    · have erased : erase keyOf key (first :: rest) = first :: erase keyOf key rest := by
        simp [erase, hit]
      rw [erased, find_cons, find_cons, ih unique]
      by_cases same : other = key
      · subst same
        simp [hit]
      · simp [same]

end Reading

section Invariant

variable {keyOf} {key : κ} {entries : List α} {changed : α → α} {entry : α}

theorem unique_append_fresh (unique : Unique keyOf entries)
    (fresh : find keyOf (keyOf entry) entries = none) : Unique keyOf (entries ++ [entry]) := by
  have absent := find_eq_none.mp fresh
  simp only [Unique, map_append, map_cons, map_nil]
  apply List.Nodup.append unique (nodup_singleton _)
  intro key member single
  obtain ⟨present, inside, same⟩ := mem_map.mp member
  exact absent present inside (same.trans (mem_singleton.mp single))

theorem map_change (keeps : ∀ entry, keyOf (changed entry) = keyOf entry) :
    (change keyOf key changed entries).map keyOf = entries.map keyOf := by
  induction entries with
  | nil => rfl
  | cons first rest ih =>
    by_cases hit : keyOf first = key <;> simp [change, hit, keeps, ih]

theorem unique_change (keeps : ∀ entry, keyOf (changed entry) = keyOf entry)
    (unique : Unique keyOf entries) : Unique keyOf (change keyOf key changed entries) := by
  rw [Unique, map_change keeps]
  exact unique

theorem unique_erase (unique : Unique keyOf entries) : Unique keyOf (erase keyOf key entries) :=
  List.Nodup.sublist (List.Sublist.map keyOf eraseP_sublist) unique

theorem mem_change (unique : Unique keyOf entries)
    (member : entry ∈ change keyOf key changed entries) :
    entry ∈ entries ∧ keyOf entry ≠ key ∨
      ∃ old, find keyOf key entries = some old ∧ entry = changed old := by
  induction entries with
  | nil => cases member
  | cons first rest ih =>
    obtain ⟨absent, unique⟩ := nodup_cons.mp unique
    by_cases hit : keyOf first = key
    · rw [change, if_pos hit] at member
      rcases mem_cons.mp member with same | behind
      · exact Or.inr ⟨first, by rw [find_cons, if_pos hit], same⟩
      · refine Or.inl ⟨mem_cons_of_mem first behind, fun equal => ?_⟩
        exact absent (mem_map.mpr ⟨entry, behind, equal.trans hit.symm⟩)
    · rw [change, if_neg hit] at member
      rcases mem_cons.mp member with same | behind
      · exact Or.inl ⟨same ▸ mem_cons_self, same ▸ hit⟩
      · rcases ih unique behind with ⟨old, apart⟩ | ⟨old, found, same⟩
        · exact Or.inl ⟨mem_cons_of_mem first old, apart⟩
        · exact Or.inr ⟨old, by rw [find_cons, if_neg hit]; exact found, same⟩

theorem mem_erase (unique : Unique keyOf entries) (member : entry ∈ erase keyOf key entries) :
    entry ∈ entries ∧ keyOf entry ≠ key := by
  have absent : find keyOf key (erase keyOf key entries) = none := by
    rw [find_erase unique, if_pos rfl]
  exact ⟨mem_of_mem_eraseP member, find_eq_none.mp absent entry member⟩

theorem change_change {later : α → α} (keeps : ∀ entry, keyOf (changed entry) = keyOf entry) :
    change keyOf key later (change keyOf key changed entries) =
      change keyOf key (later ∘ changed) entries := by
  induction entries with
  | nil => rfl
  | cons first rest ih =>
    by_cases hit : keyOf first = key
    · simp [change, hit, keeps]
    · simp [change, hit, ih]

theorem change_congr {other : α → α}
    (same : ∀ entry, find keyOf key entries = some entry → changed entry = other entry) :
    change keyOf key changed entries = change keyOf key other entries := by
  induction entries with
  | nil => rfl
  | cons first rest ih =>
    by_cases hit : keyOf first = key
    · simp [change, hit, same first (by rw [find_cons, if_pos hit])]
    · have later := ih fun entry found => same entry (by rwa [find_cons, if_neg hit])
      simp [change, hit, later]

theorem change_append_fresh (fresh : find keyOf (keyOf entry) entries = none) :
    change keyOf (keyOf entry) changed (entries ++ [entry]) = entries ++ [changed entry] := by
  induction entries with
  | nil => simp [change]
  | cons first rest ih =>
    have apart : keyOf first ≠ keyOf entry := find_eq_none.mp fresh first mem_cons_self
    rw [find_cons, if_neg apart] at fresh
    simp [change, apart, ih fresh]

theorem length_erase (found : find keyOf key entries = some entry) :
    (erase keyOf key entries).length + 1 = entries.length := by
  obtain ⟨member, hit⟩ := find_mem found
  have shorter := length_eraseP_of_mem (p := fun e => decide (keyOf e = key)) member
    (by simpa using hit)
  have positive := length_pos_of_mem member
  rw [erase, shorter]
  omega

end Invariant

end OpenCore.KeyedList
