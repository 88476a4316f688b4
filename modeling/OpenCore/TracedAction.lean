import Mathlib.Data.List.Basic

/-!
Actions on a state that may exit early and leave a trace of marks. Two sets of
marks are of interest: what a run assumes at its steps and what it guarantees of
its observations. `Ensures` says of one run that its marks are all assumed
exactly when they are all guaranteed, and that a run whose marks are assumed
ends as its postcondition says. `Follows` says of two runs that the second ends with
a result where the first does, in states that are related. The rules compose both
along the monad.
-/

namespace OpenCore.TracedAction

/-- A run from a state: its result or its early exit, the state it leaves, the
marks it made. -/
def Action (σ ε τ α : Type) := σ → (Except ε α × σ) × List τ

variable {σ ε τ α β : Type}

namespace Action

def pure (value : α) : Action σ ε τ α := fun state => ((.ok value, state), [])

def bind (action : Action σ ε τ α) (next : α → Action σ ε τ β) : Action σ ε τ β := fun state =>
  match action state with
  | ((.ok value, middle), marks) => ((next value middle).1, marks ++ (next value middle).2)
  | ((.error leave, middle), marks) => ((.error leave, middle), marks)

instance : Monad (Action σ ε τ) where
  pure := Action.pure
  bind := Action.bind

def exit (leave : ε) : Action σ ε τ α := fun state => ((.error leave, state), [])

def get : Action σ ε τ σ := fun state => ((.ok state, state), [])

def modify (change : σ → σ) : Action σ ε τ Unit := fun state => ((.ok (), change state), [])

def emit (marks : List τ) : Action σ ε τ Unit := fun state => ((.ok (), state), marks)

def recover (handler : ε → Except ε α) (action : Action σ ε τ α) : Action σ ε τ α := fun state =>
  match action state with
  | ((.ok value, final), marks) => ((.ok value, final), marks)
  | ((.error leave, final), marks) => ((handler leave, final), marks)

def ending (marksOf : Except ε α → List τ) (action : Action σ ε τ α) : Action σ ε τ α := fun state =>
  ((action state).1, (action state).2 ++ marksOf (action state).1.1)

def result (action : Action σ ε τ α) (state : σ) : Except ε α := (action state).1.1

def final (action : Action σ ε τ α) (state : σ) : σ := (action state).1.2

def marks (action : Action σ ε τ α) (state : σ) : List τ := (action state).2

end Action

section Rules

variable (assumed guaranteed : τ → Prop)
variable {next : α → Action σ ε τ β} {exits' : ε → σ → Prop} {post' : α → σ → Prop} {change : σ → σ}
  {value : α}

def All (property : τ → Prop) (marks : List τ) : Prop := ∀ mark ∈ marks, property mark

theorem all_append (property : τ → Prop) (front rest : List τ) :
    All property (front ++ rest) ↔ All property front ∧ All property rest :=
  List.forall_mem_append

theorem all_cons (property : τ → Prop) (mark : τ) (rest : List τ) :
    All property (mark :: rest) ↔ property mark ∧ All property rest :=
  List.forall_mem_cons

theorem all_nil (property : τ → Prop) : All property [] := List.forall_mem_nil _

theorem all_nil_agree {assumed guaranteed : τ → Prop} :
    All assumed [] ↔ All guaranteed [] :=
  iff_of_true (all_nil _) (all_nil _)

def Outcome (post : α → σ → Prop) (exits : ε → σ → Prop) : Except ε α × σ → Prop
  | (.ok value, final) => post value final
  | (.error leave, final) => exits leave final

/-- The run from a state: what it assumes is met exactly when what it guarantees
is, and then it ends as said. -/
def Ensures (action : Action σ ε τ α) (post : α → σ → Prop) (exits : ε → σ → Prop)
    (state : σ) : Prop :=
  (All assumed (action state).2 ↔ All guaranteed (action state).2) ∧
    (All assumed (action state).2 → Outcome post exits (action state).1)

variable {assumed guaranteed} {post middle : α → σ → Prop} {exits : ε → σ → Prop} {state : σ}
  {action : Action σ ε τ α}

theorem Ensures.pure (holds : post value state) :
    Ensures assumed guaranteed (Pure.pure value) post exits state := by
  constructor
  · exact all_nil_agree
  · intro _
    exact holds

theorem Ensures.exit {leave : ε} (holds : exits leave state) :
    Ensures assumed guaranteed (Action.exit leave) post exits state := by
  constructor
  · exact all_nil_agree
  · intro _
    exact holds

theorem Ensures.modify {post : Unit → σ → Prop} (holds : post () (change state)) :
    Ensures assumed guaranteed (Action.modify change) post exits state := by
  constructor
  · exact all_nil_agree
  · intro _
    exact holds

theorem Ensures.emit {post : Unit → σ → Prop} {marks : List τ}
    (agree : All assumed marks ↔ All guaranteed marks) (holds : All assumed marks → post () state) :
    Ensures assumed guaranteed (Action.emit marks) post exits state :=
  ⟨agree, holds⟩

variable (run : Ensures assumed guaranteed action post exits state)
include run

theorem Ensures.final_of_result
    (met : All assumed (action.marks state)) (ended : action.result state = .ok value) :
    post value (action.final state) := by
  have reached := run.2 met
  rw [Action.result] at ended
  rw [Action.final]
  rcases outcome : (action state).1 with ⟨leave | result, final⟩
  · rw [outcome] at ended
    cases ended
  · rw [outcome] at ended reached
    cases ended
    exact reached

theorem Ensures.mono (weaker : ∀ value final, post value final → post' value final)
    (weakerExits : ∀ leave final, exits leave final → exits' leave final) :
    Ensures assumed guaranteed action post' exits' state := by
  obtain ⟨agree, holds⟩ := run
  refine ⟨agree, ?_⟩
  intro met
  have reached := holds met
  rcases outcome : (action state).1 with ⟨value | leave, final⟩
  · rw [outcome] at reached
    exact weakerExits _ _ reached
  · rw [outcome] at reached
    exact weaker _ _ reached

theorem Ensures.imp (weaker : ∀ value final, post value final → post' value final) :
    Ensures assumed guaranteed action post' exits state :=
  run.mono weaker fun _ _ left => left

omit run in
theorem Ensures.bind {post : β → σ → Prop}
    (run : Ensures assumed guaranteed action middle exits state)
    (rest : ∀ value final, middle value final →
      Ensures assumed guaranteed (next value) post exits final) :
    Ensures assumed guaranteed (action >>= next) post exits state := by
  obtain ⟨agree, holds⟩ := run
  have unfolded : (action >>= next) state = Action.bind action next state := rfl
  rw [Ensures, unfolded, Action.bind]
  rcases outcome : action state with ⟨⟨leave | value, final⟩, marks⟩
  · rw [outcome] at agree holds
    exact ⟨agree, holds⟩
  · rw [outcome] at agree holds
    simp only [all_append]
    by_cases met : All assumed marks
    · obtain ⟨nextAgree, nextHolds⟩ := rest value final (holds met)
      rw [nextAgree, agree]
      refine ⟨Iff.rfl, ?_⟩
      intro both
      exact nextHolds (nextAgree.mpr both.2)
    · have refused : ¬ All guaranteed marks := fun all => met (agree.mpr all)
      exact ⟨⟨fun both => absurd both.1 met, fun both => absurd both.1 refused⟩,
        fun both => absurd both.1 met⟩

omit run in
theorem Ensures.get_bind {post : β → σ → Prop} {next : σ → Action σ ε τ β}
    (rest : Ensures assumed guaranteed (next state) post exits state) :
    Ensures assumed guaranteed (Action.get >>= next) post exits state :=
  rest

omit run in
theorem Ensures.modify_bind {post : β → σ → Prop} {next : Unit → Action σ ε τ β}
    (rest : Ensures assumed guaranteed (next ()) post exits (change state)) :
    Ensures assumed guaranteed (Action.modify change >>= next) post exits state :=
  rest

omit run in
theorem mem_bind {mark : τ} (member : mark ∈ (action state).2) :
    mark ∈ ((action >>= next) state).2 := by
  have unfolded : (action >>= next) state = Action.bind action next state := rfl
  rw [unfolded, Action.bind]
  rcases outcome : action state with ⟨⟨leave | value, final⟩, marks⟩
  · rw [outcome] at member
    exact member
  · rw [outcome] at member
    exact List.mem_append_left _ member

theorem Ensures.recover {handler : ε → Except ε α}
    (handled : ∀ leave final, exits leave final → Outcome post exits' (handler leave, final)) :
    Ensures assumed guaranteed (Action.recover handler action) post exits' state := by
  obtain ⟨agree, holds⟩ := run
  rw [Ensures, Action.recover]
  rcases outcome : action state with ⟨⟨leave | value, final⟩, marks⟩
  · rw [outcome] at agree holds
    exact ⟨agree, fun met => handled leave final (holds met)⟩
  · rw [outcome] at agree holds
    exact ⟨agree, holds⟩

theorem Ensures.ending {marksOf : Except ε α → List τ}
    (agree : ∀ outcome, All assumed (marksOf outcome) ↔ All guaranteed (marksOf outcome)) :
    Ensures assumed guaranteed (Action.ending marksOf action) post exits state := by
  obtain ⟨runAgree, holds⟩ := run
  rw [Ensures, Action.ending]
  simp only [all_append]
  constructor
  · rw [runAgree, agree]
  · intro met
    exact holds met.1

omit run in
theorem Ensures.ite {condition : Prop} [Decidable condition] {left right : Action σ ε τ α}
    (whenTrue : condition → Ensures assumed guaranteed left post exits state)
    (whenFalse : ¬ condition → Ensures assumed guaranteed right post exits state) :
    Ensures assumed guaranteed (if condition then left else right) post exits state := by
  split
  · exact whenTrue ‹_›
  · exact whenFalse ‹_›

end Rules

section Pairs

variable {γ δ : Type}
variable {next : α → Action σ ε τ γ}

def Follows (first : Action σ ε τ α) (second : Action σ ε τ β)
    (post : α → β → σ → σ → Prop) (left right : σ) : Prop :=
  ∀ value final, (first left).1 = (.ok value, final) →
    ∃ other last, (second right).1 = (.ok other, last) ∧ post value other final last

variable {first : Action σ ε τ α} {second : Action σ ε τ β} {left right : σ}

theorem Follows.ends {post : α → β → σ → σ → Prop} {value : α} {other : β} {final last : σ}
    (firstEnds : (first left).1 = (.ok value, final))
    (secondEnds : (second right).1 = (.ok other, last)) (holds : post value other final last) :
    Follows first second post left right := by
  intro reached state ended
  rw [firstEnds] at ended
  cases ended
  exact ⟨other, last, secondEnds, holds⟩

theorem Follows.exit {post : α → β → σ → σ → Prop} {leave : ε} :
    Follows (Action.exit leave) second post left right := by
  intro value final ended
  cases ended

theorem bind_eq_ok {value : γ} {final : σ}
    (ended : ((first >>= next) left).1 = (.ok value, final)) :
    ∃ between middle, (first left).1 = (.ok between, middle) ∧
      (next between middle).1 = (.ok value, final) := by
  have unfolded : (first >>= next) left = Action.bind first next left := rfl
  rw [unfolded, Action.bind] at ended
  rcases outcome : first left with ⟨⟨leave | between, middle⟩, marks⟩
  · rw [outcome] at ended
    cases ended
  · rw [outcome] at ended
    exact ⟨between, middle, rfl, ended⟩

theorem bind_ok {between : α} {middle : σ} (ended : (first left).1 = (.ok between, middle)) :
    ((first >>= next) left).1 = (next between middle).1 := by
  have unfolded : (first >>= next) left = Action.bind first next left := rfl
  rw [unfolded, Action.bind]
  rcases outcome : first left with ⟨reached, marks⟩
  rw [outcome] at ended
  simp only at ended
  rw [ended]

theorem Follows.bind {middle : α → β → σ → σ → Prop} {post : γ → δ → σ → σ → Prop}
    {after : β → Action σ ε τ δ} (heads : Follows first second middle left right)
    (tails : ∀ value other final last, middle value other final last →
      Follows (next value) (after other) post final last) :
    Follows (first >>= next) (second >>= after) post left right := by
  intro value final ended
  obtain ⟨between, state, firstEnds, nextEnds⟩ := bind_eq_ok ended
  obtain ⟨other, stateOther, secondEnds, related⟩ := heads between state firstEnds
  obtain ⟨result, last, afterEnds, holds⟩ := tails _ _ _ _ related value final nextEnds
  refine ⟨result, last, ?_, holds⟩
  rw [bind_ok secondEnds]
  exact afterEnds

theorem Follows.get_bind {post : γ → δ → σ → σ → Prop} {next : σ → Action σ ε τ γ}
    {after : σ → Action σ ε τ δ} (rest : Follows (next left) (after right) post left right) :
    Follows (Action.get >>= next) (Action.get >>= after) post left right :=
  rest

end Pairs

section Outcomes

variable {γ : Type}
variable {outcome : Except ε γ} {next : α → Action σ ε τ γ} {handler : ε → Except ε α} {value : α}
  {leave : ε} {change : σ → σ} {condition : Prop}

def Ends (action : Action σ ε τ α) (state : σ) (outcome : Except ε α) (final : σ) : Prop :=
  (action state).1 = (outcome, final)

variable {action : Action σ ε τ α} {state middle final : σ}

theorem Ends.pure :
    Ends (Pure.pure value : Action σ ε τ α) state (.ok value) state := rfl

theorem Ends.exit :
    Ends (Action.exit leave : Action σ ε τ α) state (.error leave) state := rfl

theorem Ends.modify :
    Ends (Action.modify change : Action σ ε τ Unit) state (.ok ()) (change state) := rfl

theorem Ends.emit {marks : List τ} :
    Ends (Action.emit marks : Action σ ε τ Unit) state (.ok ()) state := rfl

theorem Ends.bind
    (head : Ends action state (.ok value) middle) (rest : Ends (next value) middle outcome final) :
    Ends (action >>= next) state outcome final :=
  (bind_ok head).trans rest

theorem Ends.bind_exit (head : Ends action state (.error leave) middle) :
    Ends (action >>= next) state (.error leave) middle := by
  have unfolded : (action >>= next) state = Action.bind action next state := rfl
  rw [Ends] at head
  rw [Ends, unfolded, Action.bind]
  rcases outcome : action state with ⟨reached, marks⟩
  rw [outcome] at head
  simp only at head
  rw [head]

theorem Ends.get_bind {next : σ → Action σ ε τ γ} (rest : Ends (next state) state outcome final) :
    Ends (Action.get >>= next) state outcome final :=
  rest

theorem Ends.modify_bind {next : Unit → Action σ ε τ γ}
    (rest : Ends (next ()) (change state) outcome final) :
    Ends (Action.modify change >>= next) state outcome final :=
  rest

theorem Ends.ending {marksOf : Except ε α → List τ} {outcome : Except ε α}
    (run : Ends action state outcome final) :
    Ends (Action.ending marksOf action) state outcome final :=
  run

theorem Ends.recover (run : Ends action state (.ok value) final) :
    Ends (Action.recover handler action) state (.ok value) final := by
  rw [Ends] at run
  rw [Ends, Action.recover]
  rcases outcome : action state with ⟨reached, marks⟩
  rw [outcome] at run
  simp only at run
  rw [run]

theorem Ends.recover_exit (run : Ends action state (.error leave) final) :
    Ends (Action.recover handler action) state (handler leave) final := by
  rw [Ends] at run
  rw [Ends, Action.recover]
  rcases outcome : action state with ⟨reached, marks⟩
  rw [outcome] at run
  simp only at run
  rw [run]

theorem Ends.ite_true [Decidable condition] {left right : Action σ ε τ α}
    {outcome : Except ε α} (holds : condition) (run : Ends left state outcome final) :
    Ends (if condition then left else right) state outcome final := by
  rw [if_pos holds]
  exact run

theorem Ends.ite_false [Decidable condition] {left right : Action σ ε τ α}
    {outcome : Except ε α} (fails : ¬ condition) (run : Ends right state outcome final) :
    Ends (if condition then left else right) state outcome final := by
  rw [if_neg fails]
  exact run

end Outcomes

end OpenCore.TracedAction
