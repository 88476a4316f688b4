import Mathlib.Data.List.Chain

/-!
Joining neighbours of an array in place. A write cursor stands on the entry that takes up
those behind it and a read cursor on the next one; entries that were taken up are dropped
by moving the rest of the array over them, which happens only when an entry follows that
cannot be joined. What is left over at the end of the array was not moved over.
-/

namespace OpenCore.InPlaceJoin

open List

section Runs

variable {α : Type} (join : α → α → Option α)

def joinRuns : α → List α → List α
  | first, [] => [first]
  | first, next :: rest =>
    match join first next with
    | some joined => joinRuns joined rest
    | none => first :: joinRuns next rest

def joins : α → List α → Nat
  | _, [] => 0
  | first, next :: rest => joins next rest + if (join first next).isSome then 1 else 0

/-- Whether the last entry can be joined to the one before, or what is given if it is alone. -/
def lastJoins : Bool → α → List α → Bool
  | alone, _, [] => alone
  | _, first, next :: rest => lastJoins (join first next).isSome next rest

def Carries : Prop :=
  ∀ first next joined, join first next = some joined →
    ∀ later, (join joined later).isSome = (join next later).isSome

variable {join}

def Alike (join : α → α → Option α) (left right : α) : Prop :=
  ∀ later, (join left later).isSome = (join right later).isSome

theorem joinRuns_length (carries : Carries join) {current first : α} (alike : Alike join current first)
    (rest : List α) :
    (joinRuns join current rest).length + joins join first rest = rest.length + 1 := by
  induction rest generalizing current first with
  | nil => rfl
  | cons next rest ih =>
    have same := alike next
    unfold joinRuns joins
    cases joined : join current next with
    | none =>
      have later := @ih next next fun _ => rfl
      rw [joined, Option.isSome_none] at same
      simp only [← same, Bool.false_eq_true, if_false, length_cons]
      omega
    | some both =>
      have later := @ih both next (carries _ _ _ joined)
      rw [joined, Option.isSome_some] at same
      simp only [← same, if_true, length_cons]
      omega

/-- What an entry cannot be joined to, it cannot be joined to when that takes up more. -/
def Keeps (join : α → α → Option α) : Prop :=
  ∀ first next joined, join first next = some joined →
    ∀ earlier, join earlier first = none → join earlier joined = none

theorem not_joins_head (keeps : Keeps join) {earlier first : α} (rest : List α)
    (apart : join earlier first = none) :
    ∀ head ∈ (joinRuns join first rest).head?, join earlier head = none := by
  induction rest generalizing first with
  | nil =>
    rintro _ ⟨⟩
    exact apart
  | cons next rest ih =>
    unfold joinRuns
    cases joined : join first next with
    | none =>
      rintro _ ⟨⟩
      exact apart
    | some both => exact ih (keeps first next both joined earlier apart)

theorem joinRuns_apart (keeps : Keeps join) (first : α) (rest : List α) :
    (joinRuns join first rest).IsChain fun left right => join left right = none := by
  induction rest generalizing first with
  | nil => exact isChain_singleton _
  | cons next rest ih =>
    unfold joinRuns
    cases joined : join first next with
    | none => exact isChain_cons.mpr ⟨not_joins_head keeps rest joined, ih next⟩
    | some both => exact ih both

theorem lastJoins_append {alone : Bool} {first prev last : α} {front rest : List α}
    (split : first :: rest = front ++ [prev, last]) :
    lastJoins join alone first rest = (join prev last).isSome := by
  induction front generalizing alone first rest with
  | nil =>
    cases split
    rfl
  | cons head front ih =>
    cases front with
    | nil =>
      cases split
      rfl
    | cons second front =>
      obtain ⟨-, rfl⟩ := List.cons.inj split
      exact @ih _ second _ rfl

theorem lastJoins_iff (first : α) (rest : List α) : lastJoins join false first rest = true ↔
    ∃ front prev last, first :: rest = front ++ [prev, last] ∧ (join prev last).isSome = true := by
  constructor
  · intro ends
    rcases eq_nil_or_concat' rest with rfl | ⟨init, last, rfl⟩
    · cases ends
    · rcases eq_nil_or_concat' (first :: init) with empty | ⟨front, prev, shape⟩
      · cases empty
      · have split : first :: (init ++ [last]) = front ++ [prev, last] := by
          rw [← cons_append, shape, append_assoc]
          rfl
        exact ⟨front, prev, last, split, lastJoins_append split ▸ ends⟩
  · rintro ⟨front, prev, last, split, joined⟩
    rw [lastJoins_append split]
    exact joined

end Runs

section Cursors

variable {α : Type} (join : α → α → Option α) (unit : Nat)

/-- The array, the indices of the two cursors, the size of what is kept, whether any entry was
joined and whether entries wait to be dropped. -/
structure Cursors (α : Type) where
  entries : List α
  prev : Nat
  desc : Nat
  size : Nat
  joined : Bool
  hasEntriesToRemove : Bool

def copyDown (entries : List α) (target source count : Nat) : List α :=
  entries.take target ++ (entries.drop source).take count ++ entries.drop (target + count)

/-- One turn, with so many entries from the read cursor on. None is an access outside the array. -/
def turn (left : Nat) (cursors : Cursors α) : Option (Cursors α) :=
  match cursors.entries[cursors.prev]?, cursors.entries[cursors.desc]? with
  | some prev, some desc =>
    match join prev desc with
    | some both =>
      some { cursors with
        entries := cursors.entries.set cursors.prev both
        desc := cursors.desc + 1
        joined := true
        hasEntriesToRemove := true }
    | none =>
      if cursors.hasEntriesToRemove then
        some { cursors with
          entries := copyDown cursors.entries (cursors.prev + 1) cursors.desc left
          prev := cursors.prev + 1
          desc := cursors.prev + 1 + 1
          size := cursors.size + unit
          hasEntriesToRemove := false }
      else
        some { cursors with
          prev := cursors.prev + 1
          desc := cursors.desc + 1
          size := cursors.size + unit }
  | _, _ => none

def turns : Nat → Cursors α → Option (Cursors α)
  | 0, cursors => some cursors
  | left + 1, cursors => (turn join unit (left + 1) cursors).bind (turns left)

def Cursors.first (entries : List α) : Cursors α := ⟨entries, 0, 1, unit, false, false⟩

/-- Where the cursors stand: in front of the first lies what is done, and between the two what
waits to be dropped; behind the entries that are left is what was moved over. -/
structure Stand (done : List α) (current : α) (waiting rest stale : List α) (cursors : Cursors α) :
    Prop where
  entries : cursors.entries = done ++ current :: (waiting ++ (rest ++ stale))
  prev : cursors.prev = done.length
  desc : cursors.desc = done.length + 1 + waiting.length
  waits : cursors.hasEntriesToRemove = !waiting.isEmpty

variable {join unit}

theorem Stand.current {done waiting rest stale : List α} {current : α} {cursors : Cursors α}
    (stand : Stand done current waiting rest stale cursors) :
    cursors.entries[cursors.prev]? = some current := by
  rw [stand.entries, stand.prev, getElem?_append_right (le_refl _), Nat.sub_self]
  rfl

theorem Stand.behind {done waiting rest stale : List α} {current : α} {cursors : Cursors α}
    (stand : Stand done current waiting rest stale cursors) :
    cursors.entries.drop cursors.desc = rest ++ stale := by
  have place : cursors.desc = (done ++ current :: waiting).length := by
    rw [stand.desc, length_append, length_cons]
    omega
  have split : cursors.entries = (done ++ current :: waiting) ++ (rest ++ stale) := by
    rw [stand.entries]
    simp
  rw [place, split, drop_left]

theorem Stand.next {done waiting rest stale : List α} {current next : α} {cursors : Cursors α}
    (stand : Stand done current waiting (next :: rest) stale cursors) :
    cursors.entries[cursors.desc]? = some next := by
  rw [← Nat.add_zero cursors.desc, ← getElem?_drop, stand.behind]
  rfl

theorem Stand.turn_joins {done waiting rest stale : List α} {current next both : α}
    {cursors : Cursors α} (stand : Stand done current waiting (next :: rest) stale cursors)
    (outcome : join current next = some both) :
    ∃ after, turn join unit (rest.length + 1) cursors = some after ∧
      after.entries.length = cursors.entries.length ∧
      Stand done both (waiting ++ [next]) rest stale after ∧
      after.size = cursors.size ∧ after.joined = true := by
  unfold InPlaceJoin.turn
  rw [stand.current, stand.next]
  dsimp only
  rw [outcome]
  refine ⟨_, rfl, length_set, ?_, rfl, rfl⟩
  constructor
  · rw [stand.entries, stand.prev, set_append_right _ _ (le_refl _), Nat.sub_self, set_cons_zero]
    simp
  · exact stand.prev
  · rw [stand.desc, length_append, length_singleton]
    rfl
  · simp

theorem Stand.turn_keeps {done waiting rest stale : List α} {current next : α}
    {cursors : Cursors α} (stand : Stand done current waiting (next :: rest) stale cursors)
    (outcome : join current next = none) :
    ∃ after stale, turn join unit (rest.length + 1) cursors = some after ∧
      after.entries.length = cursors.entries.length ∧
      Stand (done ++ [current]) next [] rest stale after ∧
      after.size = cursors.size + unit ∧ after.joined = cursors.joined := by
  unfold InPlaceJoin.turn
  rw [stand.current, stand.next]
  dsimp only
  rw [outcome]
  dsimp only
  split
  · have whole := congrArg List.length stand.entries
    have front : cursors.entries.take (cursors.prev + 1) = done ++ [current] := by
      rw [stand.entries, stand.prev, take_append, take_of_length_le (Nat.le_succ _)]
      simp
    refine ⟨_, cursors.entries.drop (cursors.prev + 1 + (rest.length + 1)), rfl, ?_, ?_, rfl, rfl⟩
    · rw [copyDown, front, stand.behind]
      simp [stand.prev] at whole ⊢
      omega
    constructor
    · rw [copyDown, front, stand.behind]
      simp
    · rw [stand.prev, length_append, length_singleton]
    · rw [stand.prev, length_append, length_singleton, length_nil]
    · rfl
  · next still =>
      -- Nothing waits, so nothing is moved.
      rw [stand.waits, Bool.not_eq_true', Bool.not_eq_false, List.isEmpty_iff] at still
      subst still
      refine ⟨_, stale, rfl, rfl, ?_, rfl, rfl⟩
      constructor
      · rw [stand.entries]
        simp
      · rw [stand.prev, length_append, length_singleton]
      · rw [stand.desc, length_append, length_singleton]
        rfl
      · exact stand.waits

structure Joined (join : α → α → Option α) (unit : Nat) (done : List α) (current : α)
    (rest : List α) (before after : Cursors α) : Prop where
  runs : ∃ left, after.entries = done ++ (joinRuns join current rest ++ left) ∧
    (after.hasEntriesToRemove = true → left ≠ [])
  size : after.size + unit = before.size + unit * (joinRuns join current rest).length
  joined : after.joined = (before.joined || decide ((joinRuns join current rest).length ≤ rest.length))
  length : after.entries.length = before.entries.length
  waits : ∀ first, Alike join current first →
    after.hasEntriesToRemove = lastJoins join before.hasEntriesToRemove first rest

theorem joinRuns_length_le (first : α) (rest : List α) :
    (joinRuns join first rest).length ≤ rest.length + 1 := by
  induction rest generalizing first with
  | nil => exact le_refl _
  | cons next rest ih =>
    unfold joinRuns
    split
    · exact Nat.le_succ_of_le (ih _)
    · exact Nat.succ_le_succ (ih _)

theorem Stand.joined {done waiting stale : List α} {current : α} {cursors : Cursors α}
    (stand : Stand done current waiting [] stale cursors) :
    Joined join unit done current [] cursors cursors where
  runs := by
    refine ⟨waiting ++ stale, stand.entries, fun waits => ?_⟩
    rw [stand.waits, Bool.not_eq_true', isEmpty_eq_false_iff] at waits
    exact append_ne_nil_of_left_ne_nil waits stale
  size := by rw [joinRuns, length_singleton, Nat.mul_one]
  joined := by simp [joinRuns]
  length := rfl
  waits _ _ := rfl

theorem Joined.behind_join (carries : Carries join) {done rest : List α} {current next both : α}
    {before middle after : Cursors α} (result : Joined join unit done both rest middle after)
    (outcome : join current next = some both)
    (length : middle.entries.length = before.entries.length) (size : middle.size = before.size)
    (joined : middle.joined = true) (waits : middle.hasEntriesToRemove = true) :
    Joined join unit done current (next :: rest) before after := by
  have same : joinRuns join current (next :: rest) = joinRuns join both rest := by
    rw [joinRuns, outcome]
  constructor
  · rw [same]
    exact result.runs
  · rw [same, result.size, size]
  · rw [same, result.joined, joined, Bool.true_or, eq_comm, Bool.or_eq_true, decide_eq_true_eq]
    exact .inr (joinRuns_length_le both rest)
  · rw [result.length, length]
  · intro first alike
    rw [result.waits next (carries _ _ _ outcome), lastJoins, ← alike next, outcome, waits]
    rfl

theorem Joined.behind_keep {done rest : List α} {current next : α} {before middle after : Cursors α}
    (result : Joined join unit (done ++ [current]) next rest middle after)
    (outcome : join current next = none)
    (length : middle.entries.length = before.entries.length)
    (size : middle.size = before.size + unit) (joined : middle.joined = before.joined)
    (waits : middle.hasEntriesToRemove = false) :
    Joined join unit done current (next :: rest) before after := by
  have same : joinRuns join current (next :: rest) = current :: joinRuns join next rest := by
    rw [joinRuns, outcome]
  constructor
  · obtain ⟨left, entries, leaves⟩ := result.runs
    refine ⟨left, ?_, leaves⟩
    rw [entries, same]
    simp
  · rw [same, result.size, size, length_cons, Nat.mul_succ]
    omega
  · rw [same, result.joined, joined, length_cons, length_cons]
    simp
  · rw [result.length, length]
  · intro first alike
    rw [result.waits next fun _ => rfl, lastJoins, ← alike next, outcome, waits]
    rfl

theorem turns_joined (carries : Carries join) {done waiting rest stale : List α} {current : α}
    {cursors : Cursors α} (stand : Stand done current waiting rest stale cursors) :
    ∃ after, turns join unit rest.length cursors = some after ∧
      Joined join unit done current rest cursors after := by
  induction rest generalizing done current waiting stale cursors with
  | nil => exact ⟨cursors, rfl, stand.joined⟩
  | cons next rest ih =>
    have unfolds : ∀ middle, turn join unit (rest.length + 1) cursors = some middle →
        turns join unit (next :: rest).length cursors = turns join unit rest.length middle := by
      intro middle turned
      rw [length_cons, turns, turned, Option.bind_some]
    cases outcome : join current next with
    | some both =>
      obtain ⟨middle, turned, length, stands, size, joined⟩ := stand.turn_joins outcome
      obtain ⟨after, ran, result⟩ := ih stands
      have waits : middle.hasEntriesToRemove = true := by simp [stands.waits]
      rw [unfolds middle turned]
      exact ⟨after, ran, result.behind_join carries outcome length size joined waits⟩
    | none =>
      obtain ⟨middle, stale', turned, length, stands, size, joined⟩ := stand.turn_keeps outcome
      obtain ⟨after, ran, result⟩ := ih stands
      rw [unfolds middle turned]
      exact ⟨after, ran, result.behind_keep outcome length size joined stands.waits⟩

theorem turns_first (unit : Nat) (carries : Carries join) (first : α) (rest : List α) :
    ∃ after, turns join unit rest.length (Cursors.first unit (first :: rest)) = some after ∧
      Joined join unit [] first rest (Cursors.first unit (first :: rest)) after := by
  have stand : Stand [] first [] rest [] (Cursors.first unit (first :: rest)) := by
    constructor
    · simp [Cursors.first]
    · rfl
    · rfl
    · rfl
  exact turns_joined carries stand

theorem Joined.size_eq {first : α} {rest : List α} {after : Cursors α}
    (result : Joined join unit [] first rest (Cursors.first unit (first :: rest)) after) :
    after.size = unit * (joinRuns join first rest).length := by
  have size := result.size
  simp only [Cursors.first] at size
  omega

end Cursors

end OpenCore.InPlaceJoin
