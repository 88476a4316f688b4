import OpenCore.BootArguments
import OpenCore.ByteSlices

/-!
The removal of an argument. What its first loop leaves is the string with the tokens
that match blanked out, and the second loop squeezes that within the buffer. The
lookup and the removal agree where the first place of the argument is aligned or none
is.
-/

namespace OpenCore.BootArguments

open ByteBuffer Words List

section Erase

variable (argument : Bytes)

inductive Mode where
  | start
  | inside
  | erasing
  deriving DecidableEq

/-- The argument stands at the front of a string and ends there as it has to. -/
def Hits (suffix : Bytes) : Prop := AlignedAt argument suffix 0

instance (suffix : Bytes) : Decidable (Hits argument suffix) :=
  decidable_of_iff (argument <+: suffix ∧ (argument.getLast? = some equalsSign ∨
      suffix[argument.length]? = some blank ∨ argument.length = suffix.length))
    ⟨fun both => ⟨both.1, .inl rfl, by rw [zero_add]; exact both.2⟩,
      fun hits => ⟨hits.occurs, by simpa only [zero_add] using hits.ends⟩⟩

def erase : Mode → Bytes → Bytes
  | _, [] => []
  | mode, ch :: rest =>
    if ch = blank then blank :: erase .start rest
    else
      match mode with
      | .start =>
        if Hits argument (ch :: rest) then blank :: erase .erasing rest
        else ch :: erase .inside rest
      | .inside => ch :: erase .inside rest
      | .erasing => blank :: erase .erasing rest

def modeAt (text : Bytes) (place : Nat) : Mode :=
  if place = 0 ∨ text[place - 1]? = some blank then .start else .inside

variable {argument} {text : Bytes} {place : Nat}

theorem erase_cons (mode : Mode) (ch : UInt8) (rest : Bytes) :
    erase argument mode (ch :: rest) = if ch = blank then blank :: erase argument .start rest
      else
        match mode with
        | .start =>
          if Hits argument (ch :: rest) then blank :: erase argument .erasing rest
          else ch :: erase argument .inside rest
        | .inside => ch :: erase argument .inside rest
        | .erasing => blank :: erase argument .erasing rest := by
  cases mode <;> rfl

theorem erase_length (mode : Mode) (text : Bytes) : (erase argument mode text).length = text.length := by
  induction text generalizing mode with
  | nil => rfl
  | cons ch rest ih =>
    rw [erase_cons]
    split
    next => rw [length_cons, ih, length_cons]
    next =>
      cases mode with
      | start =>
        simp only
        split <;> rw [length_cons, ih, length_cons]
      | inside => rw [length_cons, ih, length_cons]
      | erasing => rw [length_cons, ih, length_cons]

theorem mem_erase {mode : Mode} {ch : UInt8} (member : ch ∈ erase argument mode text) :
    ch = blank ∨ ch ∈ text := by
  induction text generalizing mode with
  | nil => exact .inr member
  | cons first rest ih =>
    have behind : ∀ mode', ch ∈ erase argument mode' rest →
        ch = blank ∨ ch ∈ first :: rest := fun mode' inside =>
      (ih inside).imp_right (mem_cons_of_mem _)
    have kept : ∀ mode', ch ∈ first :: erase argument mode' rest →
        ch = blank ∨ ch ∈ first :: rest := by
      intro mode' inside
      rcases mem_cons.mp inside with rfl | later
      · exact .inr mem_cons_self
      · exact behind mode' later
    have blanked : ∀ mode', ch ∈ blank :: erase argument mode' rest →
        ch = blank ∨ ch ∈ first :: rest := by
      intro mode' inside
      rcases mem_cons.mp inside with same | later
      · exact .inl same
      · exact behind mode' later
    rw [erase_cons] at member
    split at member
    next => exact blanked _ member
    next =>
      cases mode with
      | start =>
        simp only at member
        split at member
        next => exact blanked _ member
        next => exact kept _ member
      | inside => exact kept _ member
      | erasing => exact blanked _ member

theorem modeAt_cases (text : Bytes) (place : Nat) :
    modeAt text place = .start ∨ modeAt text place = .inside := by
  unfold modeAt
  split
  next => exact .inl rfl
  next => exact .inr rfl

theorem alignedAt_iff (inside : place ≤ text.length) :
    AlignedAt argument text place ↔ modeAt text place = .start ∧ Hits argument (text.drop place) := by
  have starts : modeAt text place = .start ↔ (place = 0 ∨ text[place - 1]? = some blank) := by
    unfold modeAt
    split
    next start => exact iff_of_true rfl start
    next inner => exact iff_of_false nofun inner
  rw [starts]
  constructor
  · rintro ⟨occurs, front, ends⟩
    refine ⟨front, by rw [drop_zero]; exact occurs, .inl rfl, ?_⟩
    rw [zero_add, getElem?_drop, length_drop]
    exact ends.imp_right (Or.imp_right fun whole => by omega)
  · rintro ⟨front, occurs, -, ends⟩
    rw [drop_zero] at occurs
    have short := occurs.length_le
    rw [zero_add, getElem?_drop, length_drop] at ends
    rw [length_drop] at short
    exact ⟨occurs, front, ends.imp_right (Or.imp_right fun whole => by omega)⟩

theorem erase_skip {count : Nat} (inside : place + count ≤ text.length)
    (unaligned : ∀ index, place ≤ index → index < place + count → ¬ AlignedAt argument text index) :
    erase argument (modeAt text place) (text.drop place) = (text.drop place).take count ++
        erase argument (modeAt text (place + count)) (text.drop (place + count)) := by
  induction count generalizing place with
  | zero => rfl
  | succ count ih =>
    have bound : place < text.length := by omega
    have first := drop_eq_getElem_cons bound
    have next : erase argument (modeAt text (place + 1)) (text.drop (place + 1)) = _ :=
      ih (by omega) fun index above below => unaligned index (by omega) (by omega)
    have turn : erase argument (modeAt text place) (text.drop place) =
        text[place] :: erase argument (modeAt text (place + 1)) (text.drop (place + 1)) := by
      have mode : modeAt text (place + 1) = if text[place] = blank then .start else .inside := by
        unfold modeAt
        rw [Nat.add_sub_cancel, getElem?_eq_getElem bound]
        simp only [Nat.succ_ne_zero, false_or, Option.some.injEq]
      have misses : modeAt text place = .start → ¬ Hits argument (text[place] :: text.drop (place + 1)) := by
        intro start hits
        rw [← first] at hits
        exact unaligned place (le_refl _) (by omega)
          ((alignedAt_iff (le_of_lt bound)).mpr ⟨start, hits⟩)
      rw [first, erase_cons, mode]
      split
      next same => rw [same]
      next =>
        rcases modeAt_cases text place with start | inner
        · rw [start]
          exact if_neg (misses start)
        · rw [inner]
    rw [turn, next, first, take_succ_cons, cons_append,
      show place + 1 + count = place + (count + 1) by omega]

theorem erase_erasing (suffix : Bytes) :
    let token := suffix.takeWhile fun ch => ch ≠ blank
    erase argument .erasing suffix =
      replicate token.length blank ++ erase argument .start (suffix.drop token.length) := by
  induction suffix with
  | nil => rfl
  | cons ch rest ih =>
    by_cases same : ch = blank
    · have none : (ch :: rest).takeWhile (fun ch => decide (ch ≠ blank)) = [] :=
        takeWhile_cons_of_neg (by simp [same])
      simp only [none, length_nil, replicate_zero, nil_append, drop_zero]
      rw [erase_cons, erase_cons, if_pos same, if_pos same]
    · have more : (ch :: rest).takeWhile (fun ch => decide (ch ≠ blank)) =
          ch :: rest.takeWhile fun ch => decide (ch ≠ blank) :=
        takeWhile_cons_of_pos (by simpa using same)
      simp only [more, length_cons, replicate_succ, cons_append, drop_succ_cons]
      rw [erase_cons, if_neg same]
      exact congrArg (blank :: ·) ih

theorem erase_hits {suffix : Bytes} (solid : suffix.head? ≠ some blank) (hits : Hits argument suffix) :
    let token := suffix.takeWhile fun ch => ch ≠ blank
    erase argument .start suffix =
      replicate token.length blank ++ erase argument .start (suffix.drop token.length) := by
  have erasing := @erase_erasing argument suffix
  cases suffix with
  | nil => rfl
  | cons ch rest =>
    have other : ch ≠ blank := fun same => solid (congrArg some same)
    rw [erase_cons, if_neg other] at erasing
    rw [erase_cons, if_neg other]
    simp only [if_pos hits]
    exact erasing

end Erase

section Blank

variable {argument text : Bytes} {start : Nat}

theorem asciiStrStr_from {skipped : Nat} (nonempty : argument ≠ [])
    (found : asciiStrStr argument (text.drop start) = some skipped) :
    argument <+: text.drop (start + skipped) ∧ start + skipped < text.length ∧
      ∀ index, start ≤ index → index < start + skipped → ¬ AlignedAt argument text index := by
  obtain ⟨occurs, first⟩ := asciiStrStr_some found
  rw [drop_drop] at occurs
  refine ⟨occurs, ?_, fun index above below aligned => ?_⟩
  · by_contra beyond
    rw [drop_of_length_le (Nat.le_of_not_lt beyond)] at occurs
    exact nonempty (prefix_nil.mp occurs)
  · have earlier := first (index - start) (by omega)
    rw [drop_drop, show start + (index - start) = index by omega] at earlier
    exact earlier aligned.occurs

theorem loop_test {place : Nat} (nonempty : argument ≠ []) (occurs : argument <+: text.drop place) :
    ((place = 0 ∨ text[place - 1]? = some blank) ∧
      (text[place + argument.length - 1]? = some equalsSign ∨
        text[place + argument.length]? = some blank ∨ place + argument.length = text.length)) ↔
      AlignedAt argument text place := by
  rw [getLast_at nonempty occurs]
  exact ⟨fun both => ⟨occurs, both.1, both.2⟩, fun aligned => ⟨aligned.starts, aligned.ends⟩⟩

theorem blankMatches_unaligned {fuel : Nat} (nonempty : argument ≠ [])
    (unaligned : ∀ index, start ≤ index → ¬ AlignedAt argument text index)
    (enough : text.length - start < fuel) : blankMatches argument fuel text start = some text := by
  induction fuel generalizing start with
  | zero => exact absurd enough (Nat.not_lt_zero _)
  | succ fuel ih =>
    rw [blankMatches]
    cases found : asciiStrStr argument (text.drop start) with
    | none => rfl
    | some skipped =>
      obtain ⟨occurs, inside, -⟩ := asciiStrStr_from nonempty found
      simp only
      split
      next here =>
        exact absurd ((loop_test nonempty occurs).mp here) (unaligned _ (Nat.le_add_right _ _))
      next => exact ih (fun index above => unaligned index (by omega)) (by omega)

theorem blankMatches_stuck {fuel place : Nat} (starts : argument.head? = some blank)
    (aligned : AlignedAt argument text place)
    (first : ∀ index, start ≤ index → index < place → ¬ AlignedAt argument text index)
    (before : start ≤ place) : blankMatches argument fuel text start = none := by
  have nonempty : argument ≠ [] := fun empty => by
    rw [empty] at starts
    cases starts
  induction fuel generalizing start with
  | zero => rfl
  | succ fuel ih =>
    rw [blankMatches]
    cases found : asciiStrStr argument (text.drop start) with
    | none =>
      have occurs := asciiStrStr_none nonempty found (place - start)
      rw [drop_drop, show start + (place - start) = place by omega] at occurs
      exact absurd aligned.occurs occurs
    | some skipped =>
      obtain ⟨occurs, inside, none⟩ := asciiStrStr_from nonempty found
      have reached : start + skipped ≤ place := by
        by_contra past
        exact none place before (by omega) aligned
      simp only
      split
      next here =>
        have same : start + skipped = place := by
          by_contra other
          exact first _ (Nat.le_add_right _ _) (by omega) ((loop_test nonempty occurs).mp here)
        have token : (text.drop (start + skipped)).takeWhile
            (fun ch => decide (ch ≠ blank)) = [] := by
          obtain ⟨behind, whole⟩ := occurs
          cases argument with
          | nil => exact absurd rfl nonempty
          | cons ch rest =>
            rw [← whole, cons_append]
            exact takeWhile_cons_of_neg (by simpa using starts)
        rw [token, length_nil, replicate_zero, append_nil, add_zero, take_append_drop, same]
        exact ih (fun index above below => absurd below (by omega)) (le_refl _)
      next misplaced =>
        have other : start + skipped ≠ place := fun same =>
          misplaced ((loop_test nonempty occurs).mpr (same ▸ aligned))
        exact ih (fun index above below => first index (by omega) below) (by omega)

theorem head_at {place : Nat} (nonempty : argument ≠ []) (occurs : argument <+: text.drop place) :
    (text.drop place).head? = argument.head? := by
  obtain ⟨behind, whole⟩ := occurs
  cases argument with
  | nil => exact absurd rfl nonempty
  | cons ch rest => rw [← whole]; rfl

theorem blankMatches_erase {fuel : Nat} (nonempty : argument ≠ [])
    (starts : argument.head? ≠ some blank) (inside : start ≤ text.length)
    (enough : text.length - start < fuel) :
    blankMatches argument fuel text start =
      some (text.take start ++ erase argument (modeAt text start) (text.drop start)) := by
  induction fuel generalizing text start with
  | zero => exact absurd enough (Nat.not_lt_zero _)
  | succ fuel ih =>
    rw [blankMatches]
    cases found : asciiStrStr argument (text.drop start) with
    | none =>
      have skip := @erase_skip argument text start (text.length - start) (by omega)
        fun index above _ aligned => by
          have absent := asciiStrStr_none nonempty found (index - start)
          rw [drop_drop, show start + (index - start) = index by omega] at absent
          exact absent aligned.occurs
      have rest : text.drop (start + (text.length - start)) = [] := drop_of_length_le (by omega)
      have whole : (text.drop start).take (text.length - start) = text.drop start :=
        take_of_length_le (by rw [length_drop])
      rw [skip, rest, whole, erase, append_nil, take_append_drop]
    | some skipped =>
      obtain ⟨occurs, bound, unaligned⟩ := asciiStrStr_from nonempty found
      have skip := erase_skip (le_of_lt bound) unaligned
      have front : text.take start ++ (text.drop start).take skipped = text.take (start + skipped) :=
        (take_add).symm
      rw [skip, ← append_assoc, front]
      simp only
      split
      next here =>
        -- The token goes, and behind it a token starts or the string ends.
        obtain ⟨start', hits⟩ := (alignedAt_iff (le_of_lt bound)).mp
          ((loop_test nonempty occurs).mp here)
        have head := head_at nonempty occurs
        have erased := erase_hits (by rw [head]; exact starts) hits
        have fits := (takeWhile_sublist (l := text.drop (start + skipped))
          fun ch => decide (ch ≠ blank)).length_le
        rw [length_drop] at fits
        have some : 0 < ((text.drop (start + skipped)).takeWhile
            fun ch => decide (ch ≠ blank)).length := by
          rw [drop_eq_getElem_cons bound] at head ⊢
          have other : text[start + skipped] ≠ blank := fun same => by
            rw [← head, same] at starts
            exact starts rfl
          rw [takeWhile_cons_of_pos (by simpa using other)]
          exact Nat.succ_pos _
        rw [start', erased]
        generalize ((text.drop (start + skipped)).takeWhile
          fun ch => decide (ch ≠ blank)).length = size at fits some ⊢
        have above := Nat.le_add_right start skipped
        generalize start + skipped = place at bound fits above ⊢
        have length : (text.take place ++ replicate size blank).length = place + size := by
          rw [length_append, length_take, length_replicate]
          omega
        have total : (text.take place ++ replicate size blank ++
            text.drop (place + size)).length = text.length := by
          rw [length_append, length, length_drop]
          omega
        have later := @ih (text.take place ++ replicate size blank ++ text.drop (place + size))
          (place + size) (by omega) (by omega)
        have mode : modeAt (text.take place ++ replicate size blank ++ text.drop (place + size))
            (place + size) = .start := by
          have front : (text.take place).length = place := length_take_of_le (le_of_lt bound)
          have behind : place + size - 1 - place < size := by omega
          unfold modeAt
          rw [getElem?_append_left (by omega), getElem?_append_right (by omega), front,
            getElem?_replicate, if_pos behind]
          exact if_pos (.inr rfl)
        rw [later, mode, take_left' length, drop_left' length, append_assoc, drop_drop]
      next misplaced =>
        have other : ∀ index, start + skipped ≤ index → index < start + skipped + 1 →
            ¬ AlignedAt argument text index := by
          intro index above below aligned
          obtain rfl : index = start + skipped := by omega
          exact misplaced ((loop_test nonempty occurs).mpr aligned)
        have later := @ih text (start + skipped + 1) bound (by omega)
        have step := erase_skip bound other
        rw [later, step, ← append_assoc, take_add]

end Blank

section Tokens

variable {argument text word tail : Bytes}

theorem erase_inside (clear : blank ∉ word) (tail : Bytes) :
    erase argument .inside (word ++ tail) = word ++ erase argument .inside tail := by
  induction word with
  | nil => rfl
  | cons ch word ih =>
    have other : ch ≠ blank := fun same => clear (same ▸ mem_cons_self)
    rw [cons_append, erase_cons, if_neg other]
    exact congrArg (ch :: ·) (ih fun member => clear (mem_cons_of_mem _ member))

theorem erase_stop (stops : tail = [] ∨ ∃ rest, tail = blank :: rest) (mode : Mode) :
    erase argument mode tail = erase argument .start tail := by
  rcases stops with rfl | ⟨rest, rfl⟩
  · cases mode <;> rfl
  · rw [erase_cons, if_pos rfl, erase_cons, if_pos rfl]

theorem hits_word (nonempty : argument ≠ []) (solid : blank ∉ argument) (clear : blank ∉ word)
    (stops : tail = [] ∨ ∃ rest, tail = blank :: rest) :
    Hits argument (word ++ tail) ↔ Matches argument word := by
  rcases stops with rfl | ⟨rest, rfl⟩
  · rw [append_nil, Hits, alignedAt_word clear]
    exact and_iff_right rfl
  · rw [Hits, alignedAt_append nonempty solid clear]
    constructor
    · rintro (⟨-, matched⟩ | ⟨behind, zero, -⟩)
      · exact matched
      · omega
    · exact fun matched => .inl ⟨rfl, matched⟩

theorem takeWhile_word (clear : blank ∉ word) (stops : tail = [] ∨ ∃ rest, tail = blank :: rest) :
    (word ++ tail).takeWhile (fun ch => decide (ch ≠ blank)) = word := by
  have front : ∀ ch ∈ word, decide (ch ≠ blank) = true := fun ch member =>
    decide_eq_true fun same => clear (same ▸ member)
  rw [takeWhile_append_of_pos front]
  rcases stops with rfl | ⟨rest, rfl⟩
  · exact append_nil word
  · rw [takeWhile_cons_of_neg (by simp), append_nil]

theorem erase_word (nonempty : argument ≠ []) (solid : blank ∉ argument) (clear : blank ∉ word)
    (stops : tail = [] ∨ ∃ rest, tail = blank :: rest) :
    erase argument .start (word ++ tail) =
      (if Matches argument word then replicate word.length blank else word) ++
        erase argument .start tail := by
  cases word with
  | nil =>
    rw [if_neg fun matched => matched.nonempty nonempty rfl]
    rfl
  | cons ch word =>
    have other : ch ≠ blank := fun same => clear (same ▸ mem_cons_self)
    have hits := hits_word nonempty solid clear stops
    by_cases matched : Matches argument (ch :: word)
    · have head : (ch :: word ++ tail).head? ≠ some blank := fun same =>
        other (Option.some.inj same)
      have erased := erase_hits head (hits.mpr matched)
      simp only [takeWhile_word clear stops, drop_left] at erased
      rw [if_pos matched, erased]
    · have misses : ¬ Hits argument (ch :: (word ++ tail)) := fun found => matched (hits.mp found)
      rw [if_neg matched, cons_append, erase_cons, if_neg other]
      simp only
      rw [if_neg misses, erase_inside fun member => clear (mem_cons_of_mem _ member),
        erase_stop stops]
      rfl

theorem words_replicate (count : Nat) : words blank (replicate count blank) = [] := by
  induction count with
  | zero => exact words_nil
  | succ count ih => rw [replicate_succ, words_cons_blank, ih]

theorem words_erase (nonempty : argument ≠ []) (solid : blank ∉ argument) (text : Bytes) :
    words blank (erase argument .start text) =
      (words blank text).filter fun token => ¬ Matches argument token := by
  have single : ∀ word, blank ∉ word →
      words blank (if Matches argument word then replicate word.length blank else word) =
        (words blank word).filter fun token => ¬ Matches argument token := by
    intro word clear
    rw [words_clear clear]
    by_cases matched : Matches argument word
    · rw [if_pos matched, words_replicate, if_neg (matched.nonempty nonempty),
        filter_cons_of_neg (by simpa using matched), filter_nil]
    · rw [if_neg matched, words_clear clear]
      split
      next => rfl
      next => rw [filter_cons_of_pos (by simpa using matched), filter_nil]
  induction text using @blank_induction _ _ blank with
  | last word clear =>
    have erased := @erase_word argument word [] nonempty solid clear (.inl rfl)
    rw [append_nil] at erased
    rw [erased, erase, append_nil, single word clear]
  | step word rest clear ih =>
    rw [erase_word nonempty solid clear (.inr ⟨rest, rfl⟩), erase_cons, if_pos rfl,
      words_append_blank, words_append_blank, filter_append, single word clear, ih]

theorem erase_none (unaligned : ∀ place, ¬ AlignedAt argument text place) :
    erase argument .start text = text := by
  have skip := @erase_skip argument text 0 text.length (by omega) fun index _ _ => unaligned index
  rw [zero_add, drop_length, drop_zero, take_length, erase, append_nil] at skip
  exact skip

def solids (text : Bytes) : Nat := text.countP fun ch => ch ≠ blank

theorem solids_erase (mode : Mode) (text : Bytes) : solids (erase argument mode text) ≤ solids text := by
  have kept : ∀ (ch : UInt8) {erased rest : Bytes}, solids erased ≤ solids rest →
      solids (ch :: erased) ≤ solids (ch :: rest) := by
    intro ch erased rest fewer
    rw [solids, solids, countP_cons, countP_cons]
    exact Nat.add_le_add_right fewer _
  have blanked : ∀ (ch : UInt8) {erased rest : Bytes}, solids erased ≤ solids rest →
      solids (blank :: erased) ≤ solids (ch :: rest) := by
    intro ch erased rest fewer
    rw [solids, solids, countP_cons_of_neg (by simp), countP_cons]
    exact Nat.le_add_right_of_le fewer
  induction text generalizing mode with
  | nil => exact le_refl _
  | cons ch rest ih =>
    rw [erase_cons]
    split
    next => exact blanked _ (ih _)
    next =>
      cases mode with
      | start =>
        simp only
        split
        next => exact blanked _ (ih _)
        next => exact kept _ (ih _)
      | inside => exact kept _ (ih _)
      | erasing => exact blanked _ (ih _)

theorem solids_erase_lt {place : Nat} (nonempty : argument ≠ []) (starts : argument.head? ≠ some blank)
    (aligned : AlignedAt argument text place)
    (first : ∀ earlier < place, ¬ AlignedAt argument text earlier) :
    solids (erase argument .start text) < solids text := by
  have bound : place < text.length := by
    by_contra beyond
    have occurs := aligned.occurs
    rw [drop_of_length_le (Nat.le_of_not_lt beyond)] at occurs
    exact nonempty (prefix_nil.mp occurs)
  have skip := @erase_skip argument text 0 place (by omega) fun index _ below => first index (by omega)
  obtain ⟨start, hits⟩ := (alignedAt_iff (le_of_lt bound)).mp aligned
  have head := head_at nonempty aligned.occurs
  have cut : text = text.take place ++ text.drop place := (take_append_drop place text).symm
  rw [zero_add, drop_zero, start] at skip
  have whole : erase argument .start text = _ := skip
  rw [drop_eq_getElem_cons bound] at hits head cut whole
  have other : text[place] ≠ blank := fun same => by
    rw [← head, same] at starts
    exact starts rfl
  rw [erase_cons, if_neg other] at whole
  simp only [if_pos hits] at whole
  have fewer := @solids_erase argument .erasing (text.drop (place + 1))
  calc solids (erase argument .start text)
      = solids (text.take place) + solids (erase argument .erasing (text.drop (place + 1))) := by
        rw [whole, solids, countP_append, countP_cons_of_neg (by simp)]
        rfl
    _ < solids (text.take place) + (solids (text.drop (place + 1)) + 1) :=
        Nat.add_lt_add_left (Nat.lt_succ_of_le fewer) _
    _ = solids text := by
        conv_rhs => rw [cut, solids, countP_append, countP_cons_of_pos (by simpa using other)]
        rfl

end Tokens

end OpenCore.BootArguments
