import OpenCore.KernelReader

/-!
The bytes of a kernel file are hashed in order. Whatever is read, what was fed to
the digest is the front of the file up to the position that is kept with it, and
the reads never wait for an empty chunk.
-/

namespace OpenCore.KernelDigest

open Base ByteBuffer ByteSlices KernelReader

section Outcomes

variable {α β : Type}

/-- A call that returns, with a value of which the property holds, or fails. -/
def Ensures (outcome : Outcome α) (property : α → Prop) : Prop :=
  match outcome with
  | .done value => property value
  | .failed => True
  | .spins => False

theorem Ensures.bind {outcome : Outcome α} {next : α → Outcome β} {middle : α → Prop}
    {property : β → Prop} (first : Ensures outcome middle)
    (later : ∀ value, middle value → Ensures (next value) property) :
    Ensures (outcome.bind next) property := by
  cases outcome with
  | done value => exact later value first
  | failed => trivial
  | spins => cases first

theorem Ensures.ofOption {option : Option α} {property : α → Prop}
    (holds : ∀ value, option = some value → property value) :
    Ensures (Outcome.ofOption option) property := by
  cases option with
  | none => trivial
  | some value => exact holds value rfl

theorem Ensures.check {condition : Bool} : Ensures (Outcome.check condition) fun _ => condition = true := by
  cases condition with
  | false => trivial
  | true => rfl

theorem Ensures.mono {outcome : Outcome α} {property weaker : α → Prop}
    (ensures : Ensures outcome property) (implies : ∀ value, property value → weaker value) :
    Ensures outcome weaker := by
  cases outcome with
  | done value => exact implies value ensures
  | failed => trivial
  | spins => cases ensures

end Outcomes

section Data

variable {file data : Bytes} {position size : Nat}

theorem readPortions_eq {left : Nat} (small : file.length < u32)
    (read : readPortions file left position size = some data) (enough : size ≤ left * readPortion) :
    data = slice file position size ∧ (0 < size → position + size ≤ file.length) := by
  induction left generalizing position size data with
  | zero =>
    have none : size = 0 := by omega
    subst none
    cases read
    exact ⟨by simp [slice], fun positive => absurd positive (lt_irrefl 0)⟩
  | succ left ih =>
    rw [readPortions] at read
    split at read
    · next none =>
        subst none
        cases read
        exact ⟨by simp [slice], fun positive => absurd positive (lt_irrefl 0)⟩
    · next some =>
        simp only at read
        split at read
        · cases read
        · next whole =>
            obtain ⟨rest, later, rfl⟩ := Option.map_eq_some_iff.mp read
            have length := not_not.mp whole
            rw [slice_length_le] at length
            have positive : 0 < min size readPortion := by
              rw [readPortion]
              omega
            have inside : position + min size readPortion ≤ file.length := by omega
            rw [Nat.mod_eq_of_lt (by omega)] at later
            rw [Nat.succ_mul] at enough
            obtain ⟨same, within⟩ := ih later (by omega)
            have split : size = min size readPortion + (size - min size readPortion) := by omega
            constructor
            · rw [same, ← slice_add, ← split]
            · intro _
              by_cases more : 0 < size - min size readPortion
              · have := within more
                omega
              · omega

theorem ocGetFileData_eq (small : file.length < u32)
    (read : ocGetFileData file position size = some data) :
    data = slice file position size ∧ (0 < size → position + size ≤ file.length) := by
  apply readPortions_eq small read
  rw [readPortion]
  omega

theorem ocGetFileSize_eq {size : Nat} (found : ocGetFileSize file = some size) :
    file.length < u32 ∧ size = file.length := by
  unfold ocGetFileSize at found
  split at found
  · next small => exact ⟨small, (Option.some.inj found).symm⟩
  · cases found

end Data

section Digests

variable {file : Bytes}

def Fed (file : Bytes) (digest : Digest) : Prop :=
  digest.fed = file.take digest.position ∧ digest.position ≤ file.length

theorem update_fed {digest : Digest} {size : Nat} (small : file.length < u32)
    (fed : Fed file digest) (inside : digest.position + size ≤ file.length) :
    Fed file (digest.update (slice file digest.position size)) ∧
      (digest.update (slice file digest.position size)).position = digest.position + size := by
  have length := length_slice inside
  have place : (digest.update (slice file digest.position size)).position =
      digest.position + size := by
    rw [Digest.update, length]
    exact Nat.mod_eq_of_lt (by omega)
  refine ⟨⟨?_, by rw [place]; exact inside⟩, place⟩
  rw [place, Digest.update, fed.1, slice, ← List.take_add]

theorem hashPrefix_feeds {size left remaining : Nat} {digest : Digest} (positive : 0 < size)
    (enough : remaining ≤ left) :
    Ensures (hashPrefix file size left remaining digest) fun after =>
      file.length < u32 → Fed file digest →
        Fed file after ∧ after.position = digest.position + remaining := by
  induction left generalizing remaining digest with
  | zero =>
    have none : remaining = 0 := by omega
    subst none
    exact fun _ fed => ⟨fed, rfl⟩
  | succ left ih =>
    cases remaining with
    | zero => exact fun _ fed => ⟨fed, rfl⟩
    | succ remaining =>
      have some : 0 < min (remaining + 1) size := by omega
      apply Ensures.bind (Ensures.ofOption fun data read => read)
      intro data read
      have later := @ih (remaining + 1 - min (remaining + 1) size) (digest.update data) (by omega)
      apply later.mono
      intro after feeds small fed
      obtain ⟨rfl, inside⟩ := ocGetFileData_eq small read
      obtain ⟨fed, place⟩ := update_fed small fed (inside some)
      obtain ⟨ends, position⟩ := feeds small fed
      refine ⟨ends, ?_⟩
      rw [position, place]
      omega

structure ReadAt (file : Bytes) (position size : Nat) (before : Option Digest)
    (after : Bytes × Option Digest) : Prop where
  data : after.1 = slice file position size
  inside : 0 < size → position + size ≤ file.length
  fed : ∀ digest ∈ after.2, Fed file digest
  reached : 0 < size → ∀ digest ∈ after.2, position ≤ digest.position
  kept : ∀ old ∈ before, ∀ digest ∈ after.2, old.position ≤ digest.position
  full : 0 < size → ∀ old ∈ before, old.position = position → ∀ digest ∈ after.2,
    digest.position = position + size

theorem prefix_reaches {position size : Nat} {old : Digest}
    (moves : 0 < size ∨ position ≤ old.position) :
    let remaining := if old.position < position then position - old.position else 0
    Ensures (hashPrefix file size remaining remaining old) fun middle =>
      file.length < u32 → Fed file old →
        Fed file middle ∧ middle.position = max old.position position := by
  intro remaining
  by_cases behind : old.position < position
  · have positive : 0 < size := moves.resolve_right (not_le.mpr behind)
    have distance : remaining = position - old.position := if_pos behind
    apply (hashPrefix_feeds positive (le_refl remaining)).mono
    intro middle feeds small fed
    obtain ⟨ends, place⟩ := feeds small fed
    exact ⟨ends, by omega⟩
  · have none : remaining = 0 := if_neg behind
    rw [none]
    intro _ fed
    exact ⟨fed, by omega⟩

theorem suffix_feeds {position size : Nat} {middle : Digest} (small : file.length < u32)
    (fed : Fed file middle) (here : middle.position = position)
    (inside : 0 < size → position + size ≤ file.length) :
    let suffix := (position + size - middle.position) % u32
    let after := middle.update
      (slice (slice file position size) (position - middle.position) suffix)
    Fed file after ∧ after.position = position + size := by
  intro suffix after
  subst here
  have whole : suffix = size := by
    have fits : size < u32 := by
      by_cases positive : 0 < size
      · have := inside positive
        omega
      · rw [u32_val]
        omega
    have same : middle.position + size - middle.position = size := Nat.add_sub_cancel_left _ _
    simp only [suffix, same]
    exact Nat.mod_eq_of_lt fits
  have data : slice (slice file middle.position size) (middle.position - middle.position) suffix =
      slice file middle.position size := by
    rw [whole, Nat.sub_self, slice_slice (by omega), add_zero]
  have bound : middle.position + size ≤ file.length := by
    by_cases positive : 0 < size
    · exact inside positive
    · have := fed.2
      omega
  simp only [after, data]
  exact update_fed small fed bound

theorem kernelGetFileData_reads {position size : Nat} {digest : Option Digest}
    (moves : 0 < size ∨ ∀ old ∈ digest, position ≤ old.position) :
    Ensures (kernelGetFileData file position size digest) fun after =>
      after.2.isSome = digest.isSome ∧ (file.length < u32 → (∀ old ∈ digest, Fed file old) →
        ReadAt file position size digest after) := by
  cases digest with
  | none =>
    apply Ensures.bind (Ensures.ofOption fun data read => read)
    intro data read
    refine ⟨rfl, fun small fed => ?_⟩
    obtain ⟨rfl, inside⟩ := ocGetFileData_eq small read
    constructor
    · rfl
    · exact inside
    · exact fed
    · exact fun _ _ member => nomatch member
    · exact fun _ member => nomatch member
    · exact fun _ _ member => nomatch member
  | some old =>
    have moves : 0 < size ∨ position ≤ old.position := moves.imp_right fun far => far old rfl
    apply Ensures.bind (prefix_reaches moves)
    intro middle reaches
    apply Ensures.bind (Ensures.ofOption fun data read => read)
    intro data read
    split
    · next here =>
        refine ⟨rfl, fun small fed => ?_⟩
        obtain ⟨middleFed, place⟩ := reaches small (fed old rfl)
        obtain ⟨rfl, inside⟩ := ocGetFileData_eq small read
        obtain ⟨ends, last⟩ := suffix_feeds small middleFed (by omega) inside
        constructor
        · rfl
        · exact inside
        · rintro _ ⟨⟩
          exact ends
        · rintro _ _ ⟨⟩
          omega
        · rintro _ ⟨⟩ _ ⟨⟩
          omega
        · rintro _ _ _ _ _ ⟨⟩
          exact last
    · next behind =>
        refine ⟨rfl, fun small fed => ?_⟩
        obtain ⟨middleFed, place⟩ := reaches small (fed old rfl)
        obtain ⟨rfl, inside⟩ := ocGetFileData_eq small read
        constructor
        · rfl
        · exact inside
        · rintro _ ⟨⟩
          exact middleFed
        · rintro _ _ ⟨⟩
          omega
        · rintro _ ⟨⟩ _ ⟨⟩
          omega
        · rintro _ _ ⟨⟩ same _ ⟨⟩
          omega

theorem readRemainder_feeds {allocations : Allocations} {digest : Digest} :
    Ensures (readRemainder allocations file digest) fun after =>
      file.length < u32 ∧ (Fed file digest → after.fed = file) := by
  apply Ensures.bind (Ensures.ofOption fun size found => found)
  intro fullSize found
  obtain ⟨small, rfl⟩ := ocGetFileSize_eq found
  split
  · next more =>
      apply Ensures.bind Ensures.check
      intro _ _
      apply Ensures.bind (kernelGetFileData_reads (Or.inl (by omega)))
      rintro after ⟨_, reads⟩
      apply Ensures.ofOption
      intro last ends
      refine ⟨small, fun fed => ?_⟩
      have readAt := reads small (by rintro _ ⟨⟩; exact fed)
      have whole := readAt.full (by omega) digest rfl rfl last ends
      have far : last.position = file.length := by omega
      rw [(readAt.fed last ends).1, far, List.take_length]
  · next all =>
      refine ⟨small, fun fed => ?_⟩
      have far : digest.position = file.length := le_antisymm fed.2 (not_lt.mp all)
      rw [fed.1, far, List.take_length]

end Digests

section Success

variable {file : Bytes} {position size : Nat}

section

variable (small : file.length < u32)
include small

theorem readPortions_some {left : Nat}
    (inside : position + size ≤ file.length) (enough : size ≤ left * readPortion) :
    readPortions file left position size = some (slice file position size) := by
  induction left generalizing position size with
  | zero =>
    have none : size = 0 := by omega
    subst none
    rw [readPortions, slice, List.take_zero]
  | succ left ih =>
    rw [readPortions]
    split
    · next none => rw [none, slice, List.take_zero]
    · next some =>
        have whole : (slice file position (min size readPortion)).length =
            min size readPortion := length_slice (by omega)
        rw [Nat.succ_mul] at enough
        have later := @ih (position + min size readPortion) (size - min size readPortion)
          (by omega) (by omega)
        have split : size = min size readPortion + (size - min size readPortion) := by omega
        simp only [whole, not_true_eq_false, if_false, ne_eq]
        rw [Nat.mod_eq_of_lt (by omega), later, Option.map_some, ← slice_add, ← split]

theorem ocGetFileData_some (inside : position + size ≤ file.length) :
    ocGetFileData file position size = some (slice file position size) := by
  apply readPortions_some small inside
  rw [readPortion]
  omega

theorem hashPrefix_done {left remaining : Nat} {digest : Digest}
    (positive : 0 < size) (enough : remaining ≤ left)
    (fed : Fed file digest) (inside : digest.position + remaining ≤ file.length) :
    ∃ after, hashPrefix file size left remaining digest = .done after := by
  induction left generalizing remaining digest with
  | zero =>
    have none : remaining = 0 := by omega
    subst none
    exact ⟨digest, rfl⟩
  | succ left ih =>
    cases remaining with
    | zero => exact ⟨digest, rfl⟩
    | succ remaining =>
      have fits : digest.position + min (remaining + 1) size ≤ file.length := by omega
      obtain ⟨next, place⟩ := update_fed small fed fits
      rw [hashPrefix]
      rw [ocGetFileData_some small fits]
      exact ih (by omega) next (by omega)

theorem kernelGetFileData_behind {digest middle : Digest}
    (inside : position + size ≤ file.length)
    (front : hashPrefix file size
      (if digest.position < position then position - digest.position else 0)
      (if digest.position < position then position - digest.position else 0) digest =
        .done middle) :
    ∃ after, kernelGetFileData file position size (some digest) =
      .done (slice file position size, some after) := by
  rw [kernelGetFileData, front, ocGetFileData_some small inside]
  by_cases here : middle.position ≤ position
  · exact ⟨_, if_pos here⟩
  · exact ⟨_, if_neg here⟩

theorem kernelGetFileData_done {digest : Digest}
    (fed : Fed file digest) (positive : 0 < size) (inside : position + size ≤ file.length) :
    ∃ after, kernelGetFileData file position size (some digest) =
      .done (slice file position size, some after) ∧ Fed file after := by
  have ensures := @kernelGetFileData_reads file position size (some digest) (Or.inl positive)
  have far : digest.position +
      (if digest.position < position then position - digest.position else 0) ≤ file.length := by
    have := fed.2
    split <;> omega
  obtain ⟨middle, front⟩ := hashPrefix_done small positive (le_refl _) fed far
  obtain ⟨after, reads⟩ := kernelGetFileData_behind small inside front
  rw [reads] at ensures
  have readAt := ensures.2 small (by rintro _ ⟨⟩; exact fed)
  exact ⟨after, reads, readAt.fed after rfl⟩

end

theorem readRemainder_done {allocations : Allocations} {digest : Digest}
    (allocated : allocations.remainder = true) (small : file.length < u32)
    (fed : Fed file digest) : ∃ after, readRemainder allocations file digest = .done after := by
  rw [readRemainder, ocGetFileSize, if_pos small, allocated]
  simp only [Outcome.ofOption, Outcome.bind, Outcome.check, if_true]
  split
  · next more =>
      obtain ⟨after, reads, _⟩ := kernelGetFileData_done small fed
        (Nat.sub_pos_of_lt more) (le_of_eq (Nat.add_sub_of_le (le_of_lt more)))
      rw [reads]
      exact ⟨after, rfl⟩
  · exact ⟨digest, rfl⟩

end Success

end OpenCore.KernelDigest
