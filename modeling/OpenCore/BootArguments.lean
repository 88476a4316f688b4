import OpenCore.ByteBuffer
import OpenCore.Words

/-!
The lookup and the removal of an argument in a string of boot arguments. Both search for the
argument as a substring and look at the characters around it.
-/

namespace OpenCore.BootArguments

open ByteBuffer Words List

def blank : UInt8 := 0x20
def equalsSign : UInt8 := 0x3D

def asciiStrStr (search : Bytes) : Bytes → Option Nat
  | [] => if search = [] then some 0 else none
  | ch :: rest =>
    if search.isPrefixOf (ch :: rest) then some 0
    else (asciiStrStr search rest).map (· + 1)

def ocGetArgumentFromCmd (commandLine argument : Bytes) (argumentLength : Nat) :
    Option (Nat × Nat) :=
  match asciiStrStr argument commandLine with
  | none => none
  | some str =>
    if (str ≠ 0 ∧ commandLine[str - 1]? ≠ some blank) ∨
        (commandLine[str + argumentLength]? ≠ some blank ∧
          str + argumentLength ≠ commandLine.length ∧
          commandLine[str + argumentLength - 1]? ≠ some equalsSign) then
      none
    else
      let value := commandLine.drop (str + argumentLength)
      some (str + argumentLength, (asciiStrStr [blank] value).getD value.length)

section Remove

variable (argument : Bytes)

def blankMatches : Nat → Bytes → Nat → Option Bytes
  | 0, _, _ => none
  | fuel + 1, text, start =>
    match asciiStrStr argument (text.drop start) with
    | none => some text
    | some skipped =>
      let found := start + skipped
      if (found = 0 ∨ text[found - 1]? = some blank) ∧
          (text[found + argument.length - 1]? = some equalsSign ∨
            text[found + argument.length]? = some blank ∨
            found + argument.length = text.length) then
        let token := (text.drop found).takeWhile fun ch => ch ≠ blank
        blankMatches fuel
          (text.take found ++ replicate token.length blank ++ text.drop (found + token.length))
          (found + token.length)
      else blankMatches fuel text (found + 1)

/-- The loop that copies the string down, with both cursors. A blank in front of a
blank is skipped by the loop inside, which stops in front of no terminator. -/
def compact : Nat → Bytes → Nat → Nat → Option (Bytes × Nat × Nat)
  | 0, _, _, _ => none
  | fuel + 1, buffer, updated, read =>
    if buffer.getD read 0 = 0 then some (buffer, updated, read)
    else if buffer.getD read 0 = blank ∧ buffer.getD (read + 1) 0 = blank then
      compact fuel buffer updated (read + 1)
    else compact fuel (buffer.set updated (buffer.getD read 0)) (updated + 1) (read + 1)

def ocRemoveArgumentFromCmd (fuel : Nat) (buffer : Bytes) : Option Bytes :=
  let text := buffer.takeWhile fun ch => ch ≠ 0
  (blankMatches argument fuel text 0).bind fun blanked =>
    let memory := blanked ++ buffer.drop text.length
    let leading := memory.takeWhile fun ch => ch = blank
    (compact fuel memory 0 leading.length).map fun (moved, updated, read) =>
      overlay moved updated (replicate (read - updated) 0)

end Remove

section Search

variable {search text : Bytes}

theorem asciiStrStr_some {place : Nat} (found : asciiStrStr search text = some place) :
    search <+: text.drop place ∧ ∀ earlier < place, ¬ search <+: text.drop earlier := by
  induction text generalizing place with
  | nil =>
    rw [asciiStrStr] at found
    split at found
    next empty =>
      cases found
      exact ⟨by rw [empty]; exact nil_prefix, fun earlier before => absurd before (Nat.not_lt_zero _)⟩
    next => cases found
  | cons ch rest ih =>
    rw [asciiStrStr] at found
    split at found
    next here =>
      cases found
      exact ⟨ isPrefixOf_iff_prefix.mp here, fun earlier before => absurd before (Nat.not_lt_zero _)⟩
    next absent =>
      obtain ⟨behind, later, rfl⟩ := Option.map_eq_some_iff.mp found
      obtain ⟨occurs, first⟩ := ih later
      refine ⟨occurs, fun earlier before => ?_⟩
      cases earlier with
      | zero => exact fun here => absent ( isPrefixOf_iff_prefix.mpr here)
      | succ earlier => exact first earlier (Nat.lt_of_succ_lt_succ before)

theorem asciiStrStr_none (nonempty : search ≠ []) (absent : asciiStrStr search text = none)
    (place : Nat) : ¬ search <+: text.drop place := by
  induction text generalizing place with
  | nil =>
    rw [drop_nil]
    exact fun occurs => nonempty (prefix_nil.mp occurs)
  | cons ch rest ih =>
    rw [asciiStrStr] at absent
    split at absent
    next => cases absent
    next here =>
      cases place with
      | zero => exact fun occurs => here ( isPrefixOf_iff_prefix.mpr occurs)
      | succ place => exact ih (Option.map_eq_none_iff.mp absent) place

theorem asciiStrStr_blank (text : Bytes) :
    (asciiStrStr [blank] text).getD text.length = (text.takeWhile fun ch => ch ≠ blank).length := by
  induction text with
  | nil => rfl
  | cons ch rest ih =>
    rw [asciiStrStr]
    by_cases same : ch = blank
    · rw [if_pos (by simp [same]), takeWhile_cons_of_neg (by simp [same])]
      rfl
    · rw [if_neg (by simpa using fun equal => same equal.symm),
        takeWhile_cons_of_pos (by simpa using same), length_cons, length_cons, ← ih]
      cases asciiStrStr [blank] rest <;> rfl

end Search

section Aligned

variable (argument : Bytes)

/-- A token is the argument, or starts with one that ends in an equals sign. -/
def Matches (token : Bytes) : Prop :=
  token = argument ∨ argument.getLast? = some equalsSign ∧ argument <+: token

instance (token : Bytes) : Decidable (Matches argument token) :=
  inferInstanceAs (Decidable (_ ∨ _))

/-- The argument stands at a place, with a blank or the start in front of it, and an
equals sign at its end or a blank or the end behind it. -/
structure AlignedAt (text : Bytes) (place : Nat) : Prop where
  occurs : argument <+: text.drop place
  starts : place = 0 ∨ text[place - 1]? = some blank
  ends : argument.getLast? = some equalsSign ∨ text[place + argument.length]? = some blank ∨
    place + argument.length = text.length

variable {argument} {text word rest : Bytes} {place : Nat}

theorem Matches.nonempty {token : Bytes} (nonempty : argument ≠ []) (matched : Matches argument token) :
    token ≠ [] := by
  rcases matched with rfl | ⟨-, start⟩
  · exact nonempty
  · exact fun empty => nonempty (prefix_nil.mp (empty ▸ start))

theorem getLast_at (nonempty : argument ≠ []) (occurs : argument <+: text.drop place) :
    text[place + argument.length - 1]? = argument.getLast? := by
  have positive := length_pos_iff.mpr nonempty
  obtain ⟨behind, whole⟩ := occurs
  rw [Nat.add_sub_assoc positive, ← getElem?_drop, ← whole,
    getElem?_append_left (by omega), getLast?_eq_getElem?]

theorem clear_getElem? {index : Nat} (clear : blank ∉ word) : word[index]? ≠ some blank :=
  fun same => clear (mem_of_getElem? same)

theorem alignedAt_word (clear : blank ∉ word) :
    AlignedAt argument word place ↔ place = 0 ∧ Matches argument word := by
  constructor
  · rintro ⟨occurs, starts, ends⟩
    have zero : place = 0 := starts.resolve_right (clear_getElem? clear)
    subst zero
    rw [drop_zero] at occurs
    rw [zero_add] at ends
    rcases ends with equals | separated | whole
    · exact ⟨rfl, .inr ⟨equals, occurs⟩⟩
    · exact absurd separated (clear_getElem? clear)
    · exact ⟨rfl, .inl (occurs.eq_of_length whole).symm⟩
  · rintro ⟨rfl, rfl | ⟨equals, start⟩⟩
    · exact ⟨prefix_rfl, .inl rfl, .inr (.inr (zero_add _))⟩
    · exact ⟨start, .inl rfl, .inl equals⟩

theorem prefix_append_blank (clear : blank ∉ argument) :
    argument <+: word ++ blank :: rest ↔ argument <+: word := by
  constructor
  · intro occurs
    have front : word ++ [blank] <+: word ++ blank :: rest := ⟨rest, by rw [append_assoc]; rfl⟩
    rcases prefix_or_prefix_of_prefix occurs front with inside | beyond
    · rcases prefix_concat_iff.mp inside with same | within
      · exact absurd (same ▸ mem_append_right word mem_cons_self) clear
      · exact within
    · exact absurd (beyond.subset (mem_append_right word mem_cons_self)) clear
  · exact fun occurs => occurs.trans (prefix_append _ _)

theorem alignedAt_append (nonempty : argument ≠ []) (solid : blank ∉ argument) (clear : blank ∉ word) :
    AlignedAt argument (word ++ blank :: rest) place ↔ place = 0 ∧ Matches argument word ∨
        ∃ behind, place = word.length + 1 + behind ∧ AlignedAt argument rest behind := by
  have positive := length_pos_iff.mpr nonempty
  have past : ∀ index, (word ++ blank :: rest)[word.length + 1 + index]? = rest[index]? := by
    intro index
    rw [getElem?_append_right (by omega), show word.length + 1 + index - word.length = index + 1 by omega,
      getElem?_cons_succ]
  have dropped : ∀ index, (word ++ blank :: rest).drop (word.length + 1 + index) = rest.drop index := by
    intro index
    rw [add_assoc, drop_length_add_append, add_comm 1 index, drop_succ_cons]
  constructor
  · rintro ⟨occurs, starts, ends⟩
    by_cases zero : place = 0
    · subst zero
      rw [drop_zero, prefix_append_blank solid] at occurs
      refine .inl ⟨rfl, ?_⟩
      rw [zero_add] at ends
      have short := occurs.length_le
      rcases ends with equals | separated | whole
      · exact .inr ⟨equals, occurs⟩
      · rcases lt_or_eq_of_le short with inside | same
        · rw [getElem?_append_left inside] at separated
          exact absurd separated (clear_getElem? clear)
        · exact .inl (occurs.eq_of_length same).symm
      · rw [length_append, length_cons] at whole
        omega
    · have before := starts.resolve_left zero
      have far : word.length < place := by
        by_contra near
        rw [getElem?_append_left (by omega)] at before
        exact clear_getElem? clear before
      obtain ⟨behind, rfl⟩ := Nat.exists_eq_add_of_le far
      refine .inr ⟨behind, rfl, ?_, ?_, ?_⟩
      · rw [← dropped]
        exact occurs
      · cases behind with
        | zero => exact .inl rfl
        | succ behind =>
          right
          rw [← past]
          exact before
      · rcases ends with equals | separated | whole
        · exact .inl equals
        · rw [add_assoc, past] at separated
          exact .inr (.inl separated)
        · rw [length_append, length_cons] at whole
          exact .inr (.inr (by omega))
  · rintro (⟨rfl, matched⟩ | ⟨behind, rfl, occurs, starts, ends⟩)
    · rcases matched with rfl | ⟨equals, start⟩
      · refine ⟨prefix_append _ _, .inl rfl, .inr (.inl ?_)⟩
        rw [zero_add, getElem?_append_right (le_refl _), Nat.sub_self]
        rfl
      · exact ⟨start.trans (prefix_append _ _), .inl rfl, .inl equals⟩
    · refine ⟨by rw [dropped]; exact occurs, .inr ?_, ?_⟩
      · cases behind with
        | zero =>
          rw [add_zero, Nat.add_sub_cancel, getElem?_append_right (le_refl _), Nat.sub_self]
          rfl
        | succ behind =>
          have before := starts.resolve_left (Nat.succ_ne_zero _)
          rw [Nat.add_sub_cancel] at before
          rw [← add_assoc, Nat.add_sub_cancel, past]
          exact before
      · rcases ends with equals | separated | whole
        · exact .inl equals
        · exact .inr (.inl (by rw [add_assoc, past]; exact separated))
        · exact .inr (.inr (by rw [length_append, length_cons]; omega))

theorem exists_aligned_iff (nonempty : argument ≠ []) (solid : blank ∉ argument) :
    (∃ place, AlignedAt argument text place) ↔ ∃ token ∈ words blank text, Matches argument token := by
  have single : ∀ word, blank ∉ word →
      ((∃ token ∈ words blank word, Matches argument token) ↔ Matches argument word) := by
    intro word clear
    rw [words_clear clear]
    constructor
    · rintro ⟨token, member, matched⟩
      split at member
      next => exact absurd member not_mem_nil
      next => exact mem_singleton.mp member ▸ matched
    · intro matched
      exact ⟨word, by rw [if_neg (matched.nonempty nonempty)]; exact mem_cons_self, matched⟩
  induction text using @blank_induction _ _ blank with
  | last word clear =>
    rw [single word clear]
    simp only [alignedAt_word clear, exists_eq_left]
  | step word rest clear ih =>
    rw [words_append_blank]
    simp only [alignedAt_append nonempty solid clear, mem_append, or_and_right, exists_or,
      single word clear, exists_eq_left, ← ih]
    refine or_congr_right ⟨?_, ?_⟩
    · rintro ⟨place, behind, -, aligned⟩
      exact ⟨behind, aligned⟩
    · rintro ⟨behind, aligned⟩
      exact ⟨_, behind, rfl, aligned⟩

theorem Matches.occurs {token : Bytes} (matched : Matches argument token) : argument <+: token := by
  rcases matched with rfl | ⟨-, start⟩
  · exact prefix_rfl
  · exact start

theorem Matches.value (matched : Matches argument word) (clear : blank ∉ word) {tail : Bytes}
    (stops : tail = [] ∨ ∃ rest, tail = blank :: rest) :
    argument ++ ((word ++ tail).drop argument.length).takeWhile (fun ch => ch ≠ blank) = word := by
  obtain ⟨value, rfl⟩ := matched.occurs
  have front : ∀ ch ∈ value, decide (ch ≠ blank) = true := fun ch member =>
    decide_eq_true fun same => clear (mem_append_right _ (same ▸ member))
  have last : tail.takeWhile (fun ch => decide (ch ≠ blank)) = [] := by
    rcases stops with rfl | ⟨rest, rfl⟩
    · rfl
    · exact takeWhile_cons_of_neg (by simp)
  rw [append_assoc, drop_left, takeWhile_append_of_pos front, last, append_nil]

theorem find_word (clear : blank ∉ word) (rest : List Bytes) :
    (words blank word ++ rest).find? (fun token => decide (Matches argument token)) =
      if Matches argument word ∧ word ≠ [] then some word
      else rest.find? fun token => decide (Matches argument token) := by
  rw [words_clear clear]
  by_cases empty : word = []
  · rw [if_pos empty, if_neg fun both => both.2 empty]
    rfl
  · rw [if_neg empty, singleton_append, find?_cons]
    by_cases matched : Matches argument word
    · rw [if_pos ⟨matched, empty⟩, decide_eq_true matched]
    · rw [if_neg fun both => matched both.1, decide_eq_false matched]

theorem first_aligned (nonempty : argument ≠ []) (solid : blank ∉ argument)
    (aligned : AlignedAt argument text place)
    (first : ∀ earlier < place, ¬ AlignedAt argument text earlier) :
    (words blank text).find? (fun token => decide (Matches argument token)) =
      some (argument ++ (text.drop (place + argument.length)).takeWhile fun ch => ch ≠ blank) := by
  induction text using @blank_induction _ _ blank generalizing place with
  | last word clear =>
    obtain ⟨rfl, matched⟩ := (alignedAt_word clear).mp aligned
    have value := matched.value clear (.inl rfl)
    rw [append_nil] at value
    rw [zero_add, value, ← append_nil (words blank word), find_word clear,
      if_pos ⟨matched, matched.nonempty nonempty⟩]
  | step word rest clear ih =>
    rw [words_append_blank, find_word clear]
    rcases (alignedAt_append nonempty solid clear).mp aligned with ⟨rfl, matched⟩ | ⟨behind, rfl, later⟩
    · rw [if_pos ⟨matched, matched.nonempty nonempty⟩, zero_add,
        matched.value clear (.inr ⟨rest, rfl⟩)]
    · have other : ¬ Matches argument word := fun matched =>
        first 0 (by omega) ((alignedAt_append nonempty solid clear).mpr (.inl ⟨rfl, matched⟩))
      have found := ih later fun earlier before found =>
        first (word.length + 1 + earlier) (by omega)
          ((alignedAt_append nonempty solid clear).mpr (.inr ⟨earlier, rfl, found⟩))
      rw [if_neg fun both => other both.1, found, add_assoc _ _ argument.length, add_assoc,
        drop_length_add_append, add_comm 1, drop_succ_cons]

end Aligned

section Lookup

variable {argument text : Bytes}

theorem ocGetArgumentFromCmd_some_iff (nonempty : argument ≠ []) {found : Nat × Nat} :
    ocGetArgumentFromCmd text argument argument.length = some found ↔
      ∃ place, asciiStrStr argument text = some place ∧ AlignedAt argument text place ∧
        found = (place + argument.length,
          ((text.drop (place + argument.length)).takeWhile fun ch => ch ≠ blank).length) := by
  unfold ocGetArgumentFromCmd
  cases search : asciiStrStr argument text with
  | none => exact iff_of_false nofun fun ⟨_, same, _⟩ => by cases same
  | some place =>
    obtain ⟨occurs, -⟩ := asciiStrStr_some search
    have last := getLast_at nonempty occurs
    simp only [asciiStrStr_blank, last]
    split
    next misplaced =>
      refine iff_of_false nofun fun ⟨place', same, aligned, _⟩ => ?_
      cases same
      rcases misplaced with ⟨inner, before⟩ | ⟨separated, whole, equals⟩
      · exact aligned.starts.elim inner before
      · exact aligned.ends.elim equals fun ends => ends.elim separated whole
    next placed =>
      simp only [not_or, not_and_or, not_not] at placed
      have aligned : AlignedAt argument text place := by
        refine ⟨occurs, placed.1, ?_⟩
        rcases placed.2 with separated | whole | equals
        · exact .inr (.inl separated)
        · exact .inr (.inr whole)
        · exact .inl equals
      constructor
      · rintro ⟨⟩
        exact ⟨place, rfl, aligned, rfl⟩
      · rintro ⟨place', same, -, rfl⟩
        cases same
        rfl

end Lookup

end OpenCore.BootArguments
