import OpenCore.BootArgumentsRemoval

/-!
What a removal leaves in the buffer: the tokens that do not match, moved together at
its front, and zeroes up to the old terminator. The lookup and the removal agree where
the first place of the argument is aligned or none is.
-/

namespace OpenCore.BootArguments

open ByteBuffer ByteSlices Words List

section Compact

variable {tail : Bytes}

theorem set_shift (out junk more : Bytes) (ch : UInt8) :
    ∃ behind : Bytes, behind.length = junk.length ∧
      (out ++ (junk ++ ch :: more)).set out.length ch = (out ++ [ch]) ++ (behind ++ more) := by
  rw [set_append_right _ _ (Nat.le_refl _), Nat.sub_self]
  cases junk with
  | nil => exact ⟨[], rfl, by simp⟩
  | cons first junk => exact ⟨junk ++ [ch], by simp, by simp⟩

theorem getD_at (out junk more : Bytes) (ch : UInt8) :
    (out ++ (junk ++ ch :: more)).getD (out.length + junk.length) 0 = ch := by
  have size : (out ++ junk).length = out.length + junk.length := length_append
  rw [← append_assoc, ← size, getD_eq_getElem?_getD, getElem?_append_right (Nat.le_refl _),
    Nat.sub_self]
  rfl

theorem getD_next (out junk rest : Bytes) (ch : UInt8) :
    (out ++ (junk ++ ch :: (rest ++ 0 :: tail))).getD (out.length + junk.length + 1) 0 = blank ↔
      rest.head? = some blank := by
  have next := getD_at out (junk ++ [ch])
  rw [length_append, length_singleton, ← add_assoc] at next
  cases rest with
  | nil =>
    have here := next tail 0
    rw [append_assoc, singleton_append] at here
    rw [nil_append, here]
    exact iff_of_false (by decide) nofun
  | cons second rest =>
    have here := next (rest ++ 0 :: tail) second
    rw [append_assoc, singleton_append] at here
    rw [cons_append, here]
    exact Option.some_inj.symm

theorem compact_spec {fuel : Nat} (out junk rest : Bytes) (clear : 0 ∉ rest) (enough : rest.length < fuel) :
    ∃ behind : Bytes, behind.length + (collapse blank rest).length = junk.length + rest.length ∧
      compact fuel (out ++ (junk ++ (rest ++ 0 :: tail))) out.length (out.length + junk.length) =
        some (out ++ (collapse blank rest ++ (behind ++ 0 :: tail)),
          out.length + (collapse blank rest).length, out.length + junk.length + rest.length) := by
  induction rest generalizing fuel out junk with
  | nil =>
    cases fuel with
    | zero => exact absurd enough (Nat.not_lt_zero _)
    | succ fuel =>
      refine ⟨junk, rfl, ?_⟩
      rw [compact, nil_append, getD_at, if_pos rfl]
      rfl
  | cons ch rest ih =>
    cases fuel with
    | zero => exact absurd enough (Nat.not_lt_zero _)
    | succ fuel =>
      have solid : ch ≠ 0 := fun same => clear (same ▸ mem_cons_self)
      have others : 0 ∉ rest := fun member => clear (mem_cons_of_mem _ member)
      have fewer : rest.length < fuel := Nat.lt_of_succ_lt_succ enough
      rw [cons_append, compact, getD_at, if_neg solid, collapse_cons]
      by_cases run : ch = blank ∧ rest.head? = some blank
      · -- A blank in front of a blank is left behind.
        obtain ⟨behind, size, moved⟩ := ih out (junk ++ [ch]) others fewer
        rw [length_append, length_singleton] at size moved
        rw [append_assoc, singleton_append, ← add_assoc] at moved
        rw [if_pos run, if_pos ⟨run.1, (getD_next out junk rest ch).mpr run.2⟩]
        refine ⟨behind, by rw [size, length_cons]; omega, ?_⟩
        rw [moved, length_cons, add_assoc _ 1, add_comm 1]
      · obtain ⟨left, same, shifted⟩ := set_shift out junk (rest ++ 0 :: tail) ch
        obtain ⟨behind, size, moved⟩ := ih (out ++ [ch]) left others fewer
        rw [length_append, length_singleton, same] at moved
        rw [same] at size
        rw [if_neg run, if_neg fun both => run ⟨both.1, (getD_next out junk rest ch).mp both.2⟩]
        refine ⟨behind, by rw [length_cons, length_cons]; omega, ?_⟩
        rw [shifted, show out.length + junk.length + 1 = out.length + 1 + junk.length by omega, moved,
          length_cons, length_cons, append_assoc, singleton_append, cons_append]
        simp only [Option.some.injEq, Prod.mk.injEq, true_and]
        omega

end Compact

section Remove

variable {argument text blanked tail : Bytes} {fuel : Nat}

theorem takeWhile_terminated (clear : 0 ∉ text) (tail : Bytes) :
    (text ++ 0 :: tail).takeWhile (fun ch => decide (ch ≠ 0)) = text := by
  have front : ∀ ch ∈ text, decide (ch ≠ 0) = true := fun ch member =>
    decide_eq_true fun same => clear (same ▸ member)
  rw [takeWhile_append_of_pos front, takeWhile_cons_of_neg (by decide), append_nil]

theorem ocRemoveArgumentFromCmd_spec (clear : 0 ∉ text)
    (blanks : blankMatches argument fuel text 0 = some blanked) (size : blanked.length = text.length)
    (kept : 0 ∉ blanked) (enough : text.length < fuel) :
    ocRemoveArgumentFromCmd argument fuel (text ++ 0 :: tail) = some (squeeze blank blanked ++
        (replicate (text.length - (squeeze blank blanked).length) 0 ++ 0 :: tail)) := by
  have split := @List.takeWhile_append_dropWhile _ (fun ch => decide (ch = blank)) blanked
  have leading : (blanked ++ 0 :: tail).takeWhile (fun ch => decide (ch = blank)) =
      blanked.takeWhile fun ch => decide (ch = blank) := by
    rw [takeWhile_append]
    split
    next same =>
      rw [takeWhile_cons_of_neg (by decide), append_nil]
      exact (( takeWhile_prefix _).eq_of_length same).symm
    next => rfl
  unfold ocRemoveArgumentFromCmd squeeze
  simp only [takeWhile_terminated clear, drop_left, blanks, Option.bind_some, leading]
  generalize blanked.takeWhile (fun ch => decide (ch = blank)) = front at split leading ⊢
  generalize blanked.dropWhile (fun ch => decide (ch = blank)) = rest at split ⊢
  subst split
  rw [length_append] at size
  obtain ⟨behind, length, moved⟩ := @compact_spec tail fuel [] front rest
    (fun member => kept (mem_append_right _ member)) (by omega)
  rw [nil_append, length_nil, zero_add, nil_append, zero_add] at moved
  rw [append_assoc, moved, Option.map_some]
  simp only
  rw [overlay_between _ behind _ (by rw [length_replicate]; omega), size]

theorem removal (nonempty : argument ≠ []) (starts : argument.head? ≠ some blank) (clear : 0 ∉ text)
    (enough : text.length < fuel) (tail : Bytes) :
    ocRemoveArgumentFromCmd argument fuel (text ++ 0 :: tail) =
      some (squeeze blank (erase argument .start text) ++
        (replicate (text.length - (squeeze blank (erase argument .start text)).length) 0 ++
          0 :: tail)) := by
  have kept : 0 ∉ erase argument .start text := by
    intro member
    rcases mem_erase member with same | inside
    · exact absurd same (by decide)
    · exact clear inside
  exact ocRemoveArgumentFromCmd_spec clear (blankMatches_erase nonempty starts (Nat.zero_le _) enough)
    (erase_length .start text) kept enough

theorem blankMatches_more {start : Nat} (more : Nat)
    (blanks : blankMatches argument fuel text start = some blanked) :
    blankMatches argument (fuel + more) text start = some blanked := by
  induction fuel generalizing text start with
  | zero => cases blanks
  | succ fuel ih =>
    rw [add_right_comm, blankMatches]
    rw [blankMatches] at blanks
    cases found : asciiStrStr argument (text.drop start) with
    | none =>
      rw [found] at blanks
      exact blanks
    | some skipped =>
      rw [found] at blanks
      simp only at blanks ⊢
      split
      next here =>
        rw [if_pos here] at blanks
        exact ih blanks
      next misplaced =>
        rw [if_neg misplaced] at blanks
        exact ih blanks

theorem compact_more {buffer : Bytes} {updated read : Nat} {moved : Bytes × Nat × Nat} (more : Nat)
    (done : compact fuel buffer updated read = some moved) :
    compact (fuel + more) buffer updated read = some moved := by
  induction fuel generalizing buffer updated read with
  | zero => cases done
  | succ fuel ih =>
    rw [add_right_comm, compact]
    rw [compact] at done
    split
    next zero =>
      rw [if_pos zero] at done
      exact done
    next inside =>
      rw [if_neg inside] at done
      split
      next run =>
        rw [if_pos run] at done
        exact ih done
      next single =>
        rw [if_neg single] at done
        exact ih done

theorem ocRemoveArgumentFromCmd_more {buffer after : Bytes} (more : Nat)
    (removed : ocRemoveArgumentFromCmd argument fuel buffer = some after) :
    ocRemoveArgumentFromCmd argument (fuel + more) buffer = some after := by
  unfold ocRemoveArgumentFromCmd at removed ⊢
  obtain ⟨blanked, blanks, done⟩ := Option.bind_eq_some_iff.mp removed
  obtain ⟨moved, compacted, same⟩ := Option.map_eq_some_iff.mp done
  simp only [blankMatches_more more blanks, Option.bind_some, compact_more more compacted, Option.map_some, same]

theorem zeros_terminated (count : Nat) (tail : Bytes) :
    ∃ behind, replicate count 0 ++ 0 :: tail = 0 :: behind := by
  cases count with
  | zero => exact ⟨tail, rfl⟩
  | succ count => exact ⟨replicate count 0 ++ 0 :: tail, rfl⟩

structure Removed (argument text tail after : Bytes) : Prop where
  tokens : words blank (after.takeWhile fun ch => ch ≠ 0) =
    (words blank text).filter fun token => ¬ Matches argument token
  shorter : (after.takeWhile fun ch => ch ≠ 0).length ≤ text.length
  size : after.length = (text ++ 0 :: tail).length
  frame : after.drop text.length = 0 :: tail

/-- The removal leaves the other tokens in their order, in the bytes of the string,
and a second removal leaves the buffer as it is. -/
theorem ocRemoveArgumentFromCmd_removes (nonempty : argument ≠ []) (solid : blank ∉ argument)
    (clear : 0 ∉ text) (enough : text.length < fuel) (tail : Bytes) :
    ∃ after, ocRemoveArgumentFromCmd argument fuel (text ++ 0 :: tail) = some after ∧
      Removed argument text tail after ∧ ocRemoveArgumentFromCmd argument fuel after = some after := by
  have starts : argument.head? ≠ some blank := fun same => solid (mem_of_mem_head? same)
  have removed := removal nonempty starts clear enough tail
  have tokens : words blank (squeeze blank (erase argument .start text)) = _ :=
    (words_squeeze _).trans (words_erase nonempty solid text)
  have short : (squeeze blank (erase argument .start text)).length ≤ text.length :=
    (squeeze_length_le _).trans_eq (erase_length .start text)
  have kept : 0 ∉ squeeze blank (erase argument .start text) := by
    intro member
    rcases mem_erase (mem_of_mem_squeeze member) with same | inside
    · exact absurd same (by decide)
    · exact clear inside
  have again := @squeeze_squeeze _ _ blank (erase argument .start text)
  generalize squeeze blank (erase argument .start text) = result at *
  obtain ⟨behind, zeros⟩ := zeros_terminated (text.length - result.length) tail
  refine ⟨_, removed, ⟨?_, ?_, ?_, ?_⟩, ?_⟩
  · rw [zeros, takeWhile_terminated kept, tokens]
  · rw [zeros, takeWhile_terminated kept]
    exact short
  · simp only [length_append, length_replicate]
    omega
  · rw [← append_assoc]
    exact drop_left' (by rw [length_append, length_replicate]; omega)
  · -- No token of the result matches, so the second run erases nothing.
    have unaligned : ∀ place, ¬ AlignedAt argument result place := by
      intro place aligned
      obtain ⟨token, member, matched⟩ := (exists_aligned_iff nonempty solid).mp ⟨place, aligned⟩
      rw [tokens, mem_filter, decide_eq_true_eq] at member
      exact member.2 matched
    have second := removal nonempty starts kept (Nat.lt_of_le_of_lt short enough) behind
    rw [erase_none unaligned, again, Nat.sub_self] at second
    rw [zeros, second]
    rfl

/-- Of `a -v b` the removal of `-v` leaves `a b`. -/
theorem middle_removed :
    ∃ after, ocRemoveArgumentFromCmd [0x2D, 0x76] 7 ([0x61, 0x20, 0x2D, 0x76, 0x20, 0x62] ++ [0]) = some after ∧
      Removed [0x2D, 0x76] [0x61, 0x20, 0x2D, 0x76, 0x20, 0x62] [] after ∧
      ocRemoveArgumentFromCmd [0x2D, 0x76] 7 after = some after :=
  ocRemoveArgumentFromCmd_removes (by decide) (by decide) (by decide) (by decide) []

/-- The argument `a b` is no token, and of the tokens `a` and `b` its removal takes
the first. -/
theorem split_removed :
    ∃ after, ocRemoveArgumentFromCmd [0x61, 0x20, 0x62] 4 ([0x61, 0x20, 0x62] ++ [0]) = some after ∧
      ¬ Removed [0x61, 0x20, 0x62] [0x61, 0x20, 0x62] [] after := by
  exact ⟨[0x62, 0, 0, 0], by decide, fun removed => absurd removed.tokens (by decide)⟩

end Remove

section Agree

variable {argument text : Bytes}

/-- The lookup finds what the tokens say, and the removal agrees: what is not found
leaves the tokens as they are. -/
structure Finds (argument text : Bytes) : Prop where
  found : (ocGetArgumentFromCmd text argument argument.length).isSome ↔
    ∃ token ∈ words blank text, Matches argument token
  value : ∀ place size, ocGetArgumentFromCmd text argument argument.length = some (place, size) →
    (words blank text).find? (fun token => Matches argument token) =
      some (argument ++ (text.drop place).take size)
  agrees : ocGetArgumentFromCmd text argument argument.length = none ↔
    ∃ fuel after, ocRemoveArgumentFromCmd argument fuel (text ++ [0]) = some after ∧
      words blank (after.takeWhile fun ch => ch ≠ 0) = words blank text

/-- Where the argument stands as a token anywhere, it is a single one, and the first
place where its characters occur is such a place. -/
def Findable (argument text : Bytes) : Prop :=
  (∃ place, AlignedAt argument text place) →
    blank ∉ argument ∧ ∃ place, asciiStrStr argument text = some place ∧ AlignedAt argument text place

theorem unaligned_leaves (nonempty : argument ≠ []) (clear : 0 ∉ text)
    (unaligned : ∀ place, ¬ AlignedAt argument text place) :
    ∃ fuel after, ocRemoveArgumentFromCmd argument fuel (text ++ [0]) = some after ∧
      words blank (after.takeWhile fun ch => ch ≠ 0) = words blank text := by
  have blanks := @blankMatches_unaligned argument text 0 (text.length + 1) nonempty
    (fun index _ => unaligned index) (Nat.lt_succ_self _)
  have removed := @ocRemoveArgumentFromCmd_spec argument text text [] _ clear blanks rfl clear
    (Nat.lt_succ_self _)
  obtain ⟨behind, zeros⟩ := zeros_terminated (text.length - (squeeze blank text).length) []
  refine ⟨_, _, removed, ?_⟩
  rw [zeros, takeWhile_terminated fun member => clear (mem_of_mem_squeeze member), words_squeeze]

theorem aligned_changes {fuel place : Nat} {after : Bytes} (nonempty : argument ≠ []) (clear : 0 ∉ text)
    (aligned : AlignedAt argument text place)
    (removed : ocRemoveArgumentFromCmd argument fuel (text ++ [0]) = some after) :
    words blank (after.takeWhile fun ch => ch ≠ 0) ≠ words blank text := by
  classical
  obtain ⟨first, found, earliest⟩ : ∃ first, AlignedAt argument text first ∧
      ∀ earlier < first, ¬ AlignedAt argument text earlier :=
    ⟨Nat.find ⟨place, aligned⟩, Nat.find_spec ⟨place, aligned⟩, fun _ => Nat.find_min ⟨place, aligned⟩⟩
  by_cases starts : argument.head? = some blank
  · have stuck := @blankMatches_stuck argument text 0 fuel first starts found
      (fun index _ below => earliest index below) (Nat.zero_le _)
    unfold ocRemoveArgumentFromCmd at removed
    simp only [takeWhile_terminated clear, stuck, Option.bind_none, reduceCtorEq] at removed
  · have longer := ocRemoveArgumentFromCmd_more (text.length + 1) removed
    rw [removal nonempty starts clear (by omega), Option.some_inj] at longer
    have kept : 0 ∉ squeeze blank (erase argument .start text) := by
      intro member
      rcases mem_erase (mem_of_mem_squeeze member) with same | inside
      · exact absurd same (by decide)
      · exact clear inside
    obtain ⟨behind, zeros⟩ := zeros_terminated
      (text.length - (squeeze blank (erase argument .start text)).length) []
    rw [← longer, zeros, takeWhile_terminated kept, words_squeeze]
    intro same
    have fewer := solids_erase_lt nonempty starts found earliest
    have solids_flatten : ∀ text : Bytes, solids text = (words blank text).flatten.length := fun text => by
      rw [words_flatten, solids, countP_eq_length_filter]
    rw [solids_flatten, solids_flatten, same] at fewer
    exact Nat.lt_irrefl _ fewer

/-- The lookup and the removal go by the tokens just where the first place of the
argument is a token, if any is. -/
theorem ocGetArgumentFromCmd_finds_iff (nonempty : argument ≠ []) (clear : 0 ∉ text) :
    Finds argument text ↔ Findable argument text := by
  constructor
  · intro finds aligned
    obtain ⟨place, here⟩ := aligned
    cases answer : ocGetArgumentFromCmd text argument argument.length with
    | none =>
      obtain ⟨fuel, after, removed, same⟩ := finds.agrees.mp answer
      exact absurd same (aligned_changes nonempty clear here removed)
    | some found =>
      obtain ⟨first, search, starts, -⟩ := (ocGetArgumentFromCmd_some_iff nonempty).mp answer
      obtain ⟨token, member, matched⟩ := finds.found.mp (by rw [answer]; rfl)
      exact ⟨fun inside => (mem_words member).2 (matched.occurs.subset inside), first, search, starts⟩
  · intro findable
    by_cases aligned : ∃ place, AlignedAt argument text place
    · obtain ⟨solid, first, search, starts⟩ := findable aligned
      have answer := (ocGetArgumentFromCmd_some_iff nonempty).mpr ⟨first, search, starts, rfl⟩
      refine ⟨?_, ?_, ?_⟩
      · rw [answer]
        exact iff_of_true rfl ((exists_aligned_iff nonempty solid).mp aligned)
      · intro place size same
        rw [answer] at same
        cases same
        obtain ⟨-, earliest⟩ := asciiStrStr_some search
        rw [first_aligned nonempty solid starts fun earlier below found => earliest _ below found.occurs]
        congr 2
        exact ((prefix_iff_eq_take).mp ( takeWhile_prefix _))
      · rw [answer]
        refine iff_of_false nofun ?_
        rintro ⟨fuel, after, removed, same⟩
        exact aligned_changes nonempty clear starts removed same
    · have unaligned : ∀ place, ¬ AlignedAt argument text place := fun place here => aligned ⟨place, here⟩
      have answer : ocGetArgumentFromCmd text argument argument.length = none := by
        by_contra found
        obtain ⟨answer, same⟩ := Option.ne_none_iff_exists'.mp found
        obtain ⟨first, -, starts, -⟩ := (ocGetArgumentFromCmd_some_iff nonempty).mp same
        exact unaligned first starts
      refine ⟨?_, ?_, ?_⟩
      · rw [answer]
        refine iff_of_false nofun ?_
        rintro ⟨token, member, matched⟩
        have solid : blank ∉ argument := fun inside => (mem_words member).2 (matched.occurs.subset inside)
        exact aligned ((exists_aligned_iff nonempty solid).mpr ⟨token, member, matched⟩)
      · intro place size same
        rw [answer] at same
        cases same
      · rw [answer]
        exact iff_of_true rfl (unaligned_leaves nonempty clear unaligned)

/-- In `a -v` the argument `-v` is found. -/
theorem last_finds : Finds [0x2D, 0x76] [0x61, 0x20, 0x2D, 0x76] :=
  (ocGetArgumentFromCmd_finds_iff (by decide) (by decide)).mpr fun _ =>
    ⟨by decide, 2, by decide, ⟨by decide, .inr rfl, .inr (.inr rfl)⟩⟩

/-- In `a-v -v` the argument `-v` is not found behind the token that ends in it. -/
theorem shadowed_missed : ¬ Finds [0x2D, 0x76] [0x61, 0x2D, 0x76, 0x20, 0x2D, 0x76] := by
  intro finds
  have answer := finds.found.mpr ⟨[0x2D, 0x76], by decide, .inl rfl⟩
  exact absurd answer (by decide)

end Agree

end OpenCore.BootArguments
