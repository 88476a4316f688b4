import OpenCore.DevicePropertyBuffer

/-!
A buffer as numbered variables. With variable services that do as the interface
says, a buffer of at most `0x10000` variables is stored piece by piece behind each
other, no variable follows the last piece, and the reader gets the pieces back;
its status is that of one more variable, unless the number is the highest.
-/

namespace OpenCore.DevicePropertyVariables

open Base ByteBuffer DevicePropertyBuffer List

section Names

theorem digitChar_inj {left right : Nat} (small : left < 16) (other : right < 16)
    (same : Nat.digitChar left = Nat.digitChar right) : left = right := by
  have all : ∀ left right : Fin 16,
      Nat.digitChar left.val = Nat.digitChar right.val → left = right := by decide
  exact Fin.val_eq_of_eq (all ⟨left, small⟩ ⟨right, other⟩ same)

theorem variableName_inj {left right : Nat} (small : left < variableMaxNum)
    (other : right < variableMaxNum) (same : variableName left = variableName right) :
    left = right := by
  have digits := append_cancel_left same
  simp only [indexDigits, map_cons, map_nil, List.cons.injEq, and_true] at digits
  simp only [variableMaxNum] at small other
  obtain ⟨first, second, third, fourth⟩ := digits
  have first := digitChar_inj (by omega) (by omega) first
  have second := digitChar_inj (by omega) (by omega) second
  have third := digitChar_inj (by omega) (by omega) third
  have fourth := digitChar_inj (by omega) (by omega) fourth
  omega

end Names

section Services

variable {σ : Type}

structure Documented (services : VariableServices σ) (contents : σ → List Char → Option Bytes) :
    Prop where
  missing : ∀ nvram name size, contents nvram name = none →
    services.getVariable nvram name size = (.notFound, size, [])
  tooSmall : ∀ nvram name size data, contents nvram name = some data → size < data.length →
    services.getVariable nvram name size = (.bufferTooSmall, data.length, [])
  fits : ∀ nvram name size data, contents nvram name = some data → data.length ≤ size →
    services.getVariable nvram name size = (.success, data.length, data)
  filled : ∀ nvram name, contents nvram name ≠ some []
  stored : ∀ nvram name data, data ≠ [] →
    (services.setVariable nvram name data).1 = .success ∧
      ∀ other, contents (services.setVariable nvram name data).2 other =
        if other = name then some data else contents nvram other
  deleted : ∀ nvram name, contents nvram name ≠ none →
    (services.setVariable nvram name []).1 = .success ∧
      ∀ other, contents (services.setVariable nvram name []).2 other =
        if other = name then none else contents nvram other

/-- From an index on, the variables hold the pieces of the data; the last index is
the one behind them. -/
inductive Pieces (contents : List Char → Option Bytes) : Nat → Bytes → Nat → Prop
  | done (index : Nat) : Pieces contents index [] index
  | piece {index : Nat} {data : Bytes} {last : Nat} (nonempty : data ≠ [])
      (held : contents (variableName index) = some (data.take variableMaxSize))
      (rest : Pieces contents (index + 1) (data.drop variableMaxSize) last) :
      Pieces contents index data last

variable {contents other : List Char → Option Bytes} {index last : Nat} {data : Bytes}

theorem Pieces.le (pieces : Pieces contents index data last) : index ≤ last := by
  induction pieces with
  | done index => exact le_refl index
  | piece _ _ _ ih => omega

theorem Pieces.count (pieces : Pieces contents index data last) :
    last - index = (data.length + (variableMaxSize - 1)) / variableMaxSize := by
  induction pieces with
  | done index => simp [variableMaxSize]
  | piece nonempty held rest ih =>
    have behind := rest.le
    have positive := length_pos_iff.mpr nonempty
    rw [length_drop] at ih
    simp only [variableMaxSize] at ih ⊢
    omega

theorem Pieces.congr (pieces : Pieces contents index data last)
    (same : ∀ number, index ≤ number → number < last →
      other (variableName number) = contents (variableName number)) :
    Pieces other index data last := by
  induction pieces with
  | done index => exact Pieces.done index
  | piece nonempty held rest ih =>
    have behind := rest.le
    have later := ih fun number after before => same number (by omega) before
    exact Pieces.piece nonempty ((same _ (le_refl _) (by omega)).trans held) later

end Services

section Storing

variable {σ : Type} {services : VariableServices σ} {contents : σ → List Char → Option Bytes}
  {index left : Nat} {data : Bytes} {nvram : σ}

theorem take_ne_nil (nonempty : data ≠ []) : data.take variableMaxSize ≠ [] := by
  intro none
  have length := congrArg List.length none
  have positive := length_pos_iff.mpr nonempty
  rw [length_take, length_nil, variableMaxSize] at length
  omega

theorem writeVariables_stores (documented : Documented services contents)
    (room : index + left ≤ variableMaxNum) (small : data.length ≤ variableMaxSize * left) :
    ∃ last after, writeVariables services left index data nvram = (.success, last, [], after) ∧
      last ≤ index + left ∧ Pieces (contents after) index data last ∧ ∀ number < index,
        contents after (variableName number) = contents nvram (variableName number) := by
  induction left generalizing index data nvram with
  | zero =>
    have none : data = [] := length_eq_zero_iff.mp (by simpa using small)
    subst none
    exact ⟨index, nvram, rfl, le_refl _, Pieces.done index, fun _ _ => rfl⟩
  | succ left ih =>
    by_cases none : data = []
    · subst none
      exact ⟨index, nvram, by simp [writeVariables], by omega, Pieces.done index, fun _ _ => rfl⟩
    · obtain ⟨success, held⟩ := documented.stored nvram (variableName index)
        (data.take variableMaxSize) (take_ne_nil none)
      have fewer : (data.drop variableMaxSize).length ≤ variableMaxSize * left := by
        rw [length_drop]
        rw [Nat.mul_succ] at small
        omega
      obtain ⟨last, after, written, bound, pieces, kept⟩ := @ih (index + 1) _
        (services.setVariable nvram (variableName index) (data.take variableMaxSize)).2
        (by omega) fewer
      refine ⟨last, after, ?_, by omega, Pieces.piece none ?_ pieces, ?_⟩
      · rw [writeVariables, if_neg none]
        simp only [success]
        exact written
      · rw [kept index (Nat.lt_succ_self index), held, if_pos rfl]
      · intro number before
        have apart : variableName number ≠ variableName index := fun same =>
          absurd (variableName_inj (by omega) (by omega) same) (by omega)
        rw [kept number (by omega), held, if_neg apart]

theorem writeVariables_left (documented : Documented services contents)
    (large : variableMaxSize * left < data.length) :
    let stored := writeVariables services left index data nvram
    stored.1.isError = true ∨ stored.2.2.1 ≠ [] := by
  induction left generalizing index data nvram with
  | zero =>
    have some : data ≠ [] := length_pos_iff.mp (by simpa using large)
    exact Or.inr some
  | succ left ih =>
    have nonempty : data ≠ [] := length_pos_iff.mp (by omega)
    obtain ⟨success, _⟩ := documented.stored nvram (variableName index)
      (data.take variableMaxSize) (take_ne_nil nonempty)
    have more : variableMaxSize * left < (data.drop variableMaxSize).length := by
      rw [length_drop]
      rw [Nat.mul_succ] at large
      omega
    rw [writeVariables, if_neg nonempty]
    simp only [success]
    exact ih more

theorem deleteVariables_ends (documented : Documented services contents)
    (room : index + left ≤ variableMaxNum) :
    ∃ after, deleteVariables services left index nvram = (.success, after) ∧
      (left ≠ 0 → contents after (variableName index) = none) ∧ ∀ number < index,
        contents after (variableName number) = contents nvram (variableName number) := by
  induction left generalizing index nvram with
  | zero => exact ⟨nvram, rfl, fun some => absurd rfl some, fun _ _ => rfl⟩
  | succ left ih =>
    cases held : contents nvram (variableName index) with
    | none =>
      have answer := documented.missing nvram (variableName index) 0 held
      exact ⟨nvram, by simp [deleteVariables, answer], fun _ => held, fun _ _ => rfl⟩
    | some data =>
      have nonempty : data ≠ [] := fun none =>
        documented.filled nvram (variableName index) (none ▸ held)
      have answer := documented.tooSmall nvram (variableName index) 0 data held
        (length_pos_iff.mpr nonempty)
      obtain ⟨success, deleted⟩ := documented.deleted nvram (variableName index)
        (by simp [held])
      obtain ⟨after, ends, _, kept⟩ := @ih (index + 1)
        (services.setVariable nvram (variableName index) []).2 (by omega)
      refine ⟨after, ?_, fun _ => ?_, ?_⟩
      · rw [deleteVariables, answer, if_neg (by simp)]
        simp only [success]
        exact ends
      · rw [kept index (Nat.lt_succ_self index), deleted, if_pos rfl]
      · intro number before
        have apart : variableName number ≠ variableName index := fun same =>
          absurd (variableName_inj (by omega) (by omega) same) (by omega)
        rw [kept number (by omega), deleted, if_neg apart]

end Storing

section Reading

variable {σ : Type} {services : VariableServices σ} {contents : σ → List Char → Option Bytes}
  {index last : Nat} {data : Bytes} {nvram : σ}

theorem sizeVariables_counts (documented : Documented services contents)
    (pieces : Pieces (contents nvram) index data last) {left size : Nat}
    (room : last ≤ index + left) (bounded : size + data.length < u64)
    (ends : last < index + left → contents nvram (variableName last) = none) :
    sizeVariables services nvram left index size =
      some (if last < index + left then last + 1 else last, size + data.length) := by
  induction pieces generalizing left size with
  | done index =>
    cases left with
    | zero => simp [sizeVariables]
    | succ left =>
      have answer := documented.missing nvram (variableName index) 0 (ends (by omega))
      have total : baseOverflowAdd u64 size 0 = some size := by
        rw [baseOverflowAdd, Nat.add_zero, if_pos (by simpa using bounded)]
      simp only [sizeVariables, answer, total]
      simp
  | @piece index data last nonempty held rest ih =>
    have behind := rest.le
    have positive := length_pos_iff.mpr (take_ne_nil nonempty)
    have split : (data.take variableMaxSize).length + (data.drop variableMaxSize).length =
        data.length := by rw [← length_append, take_append_drop]
    cases left with
    | zero => omega
    | succ left =>
      have answer := documented.tooSmall nvram (variableName index) 0 _ held positive
      have total : baseOverflowAdd u64 size (data.take variableMaxSize).length =
          some (size + (data.take variableMaxSize).length) := by
        rw [baseOverflowAdd, if_pos (by omega)]
      have later := @ih left (size + (data.take variableMaxSize).length) (by omega) (by omega)
        fun before => ends (by omega)
      have places : index + 1 + left = index + (left + 1) := by omega
      have sizes : size + (data.take variableMaxSize).length +
          (data.drop variableMaxSize).length = size + data.length := by omega
      rw [sizeVariables]
      simp only [answer, total, if_true]
      rw [later, places, sizes]

-- Deleting a piece leaves those behind it: the variables agree from the index on.
theorem readVariables_reads {view : List Char → Option Bytes}
    (documented : Documented services contents) (pieces : Pieces view index data last)
    (bound : last ≤ variableMaxNum) (agree : ∀ number, index ≤ number → number < variableMaxNum →
      contents nvram (variableName number) = view (variableName number))
    (delete : Bool) (more : Nat) (front : Bytes) :
    ∃ after, readVariables services delete (last - index + more) index data.length nvram front =
        readVariables services delete more last 0 after (front ++ data) ∧ (last < variableMaxNum →
        contents after (variableName last) = view (variableName last)) := by
  induction pieces generalizing nvram front with
  | done index =>
    refine ⟨nvram, ?_, fun inside => agree index (le_refl _) inside⟩
    rw [Nat.sub_self, Nat.zero_add, append_nil]
    rfl
  | @piece index data last nonempty held rest ih =>
    have behind := rest.le
    have here : contents nvram (variableName index) = some (data.take variableMaxSize) :=
      (agree index (le_refl _) (by omega)).trans held
    have within : (data.take variableMaxSize).length ≤ data.length := by
      rw [length_take]
      exact Nat.min_le_right _ _
    have answer := documented.fits nvram (variableName index) data.length _ here within
    let next := if delete then (services.setVariable nvram (variableName index) []).2 else nvram
    have turn : (if delete then services.setVariable nvram (variableName index) []
        else (EfiStatus.success, nvram)) = (.success, next) := by
      cases delete with
      | false => rfl
      | true =>
        have success := (documented.deleted nvram (variableName index) (by simp [here])).1
        exact Prod.ext success rfl
    have kept : ∀ number, index + 1 ≤ number → number < variableMaxNum →
        contents next (variableName number) = view (variableName number) := by
      intro number after before
      rw [← agree number (by omega) before]
      cases delete with
      | false => rfl
      | true =>
        have deleted := (documented.deleted nvram (variableName index) (by simp [here])).2
        have apart : variableName number ≠ variableName index := fun same =>
          absurd (variableName_inj before (by omega) same) (by omega)
        exact (deleted _).trans (if_neg apart)
    obtain ⟨after, reads, ends⟩ := ih bound kept (front ++ data.take variableMaxSize)
    refine ⟨after, ?_, ends⟩
    have count : last - index + more = last - (index + 1) + more + 1 := by omega
    have room : data.length - (data.take variableMaxSize).length =
        (data.drop variableMaxSize).length := by
      rw [length_drop, length_take]
      omega
    rw [append_assoc, take_append_drop] at reads
    rw [count, readVariables]
    simp only [answer, turn, room, EfiStatus.isError, bne_self_eq_false, Bool.false_eq_true,
      if_false]
    exact reads

theorem readVariables_status (documented : Documented services contents)
    (pieces : Pieces (contents nvram) 0 data last) (bound : last ≤ variableMaxNum)
    (ends : last < variableMaxNum → contents nvram (variableName last) = none) (delete : Bool) :
    ∃ after, readVariables services delete (if last < variableMaxNum then last + 1 else last) 0
        data.length nvram [] =
      (if last < variableMaxNum then .notFound else .success, data, after) := by
  by_cases more : last < variableMaxNum
  · obtain ⟨after, reads, held⟩ := readVariables_reads documented pieces bound
      (fun _ _ _ => rfl) delete 1 []
    have answer := documented.missing after (variableName last) 0 ((held more).trans (ends more))
    refine ⟨after, ?_⟩
    rw [if_pos more, if_pos more]
    rw [Nat.sub_zero, nil_append] at reads
    rw [reads, readVariables]
    simp [answer, EfiStatus.isError]
  · obtain ⟨after, reads, _⟩ := readVariables_reads documented pieces bound
      (fun _ _ _ => rfl) delete 0 []
    refine ⟨after, ?_⟩
    rw [if_neg more, if_neg more]
    rw [Nat.sub_zero, nil_append, Nat.add_zero] at reads
    rw [reads, readVariables]

end Reading

end OpenCore.DevicePropertyVariables
