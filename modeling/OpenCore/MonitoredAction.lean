import OpenCore.TracedAction

/-!
Runs under a monitor. A monitor reads the marks of a run one by one and keeps a
view of what it has seen; what a run assumes and what it guarantees of a mark may
depend on the view before it. `Watches` says of one run that, as long as every
mark is as assumed, every mark is as guaranteed and the run ends as its
postcondition says of the view and the state.
-/

namespace OpenCore.MonitoredAction

open TracedAction

variable {σ ε τ ν α β : Type}

def Throughout (next : ν → τ → ν) (property : ν → τ → Prop) : ν → List τ → Prop
  | _, [] => True
  | view, mark :: rest => property view mark ∧ Throughout next property (next view mark) rest

instance decideThroughout (next : ν → τ → ν) (property : ν → τ → Prop)
    [decide : ∀ view mark, Decidable (property view mark)] :
    ∀ view marks, Decidable (Throughout next property view marks)
  | _, [] => .isTrue trivial
  | view, mark :: rest =>
    have := decideThroughout next property (next view mark) rest
    inferInstanceAs (Decidable (property view mark ∧ Throughout next property (next view mark) rest))

section Throughout

variable {next : ν → τ → ν} {property : ν → τ → Prop}

theorem throughout_append (view : ν) (front rest : List τ) :
    Throughout next property view (front ++ rest) ↔ Throughout next property view front ∧
        Throughout next property (front.foldl next view) rest := by
  induction front generalizing view with
  | nil => simp [Throughout]
  | cons mark front ih => simp [Throughout, ih, and_assoc]

theorem Throughout.at {view : ν} {front rest : List τ} {mark : τ}
    (all : Throughout next property view (front ++ mark :: rest)) :
    property (front.foldl next view) mark :=
  ((throughout_append view front _).mp all).2.1

end Throughout

structure Monitor (τ ν : Type) where
  next : ν → τ → ν
  assumed : ν → τ → Prop
  guaranteed : ν → τ → Prop

variable (monitor : Monitor τ ν)

def Watches (action : Action σ ε τ α) (post : α → ν → σ → Prop) (exits : ε → ν → σ → Prop)
    (view : ν) (state : σ) : Prop :=
  Throughout monitor.next monitor.assumed view (action state).2 →
    Throughout monitor.next monitor.guaranteed view (action state).2 ∧
      Outcome (fun value => post value ((action state).2.foldl monitor.next view))
        (fun leave => exits leave ((action state).2.foldl monitor.next view)) (action state).1

variable {monitor} {action : Action σ ε τ α} {post : α → ν → σ → Prop} {exits : ε → ν → σ → Prop}
  {view : ν} {state : σ}

section Rules

variable {exits' : ε → ν → σ → Prop} {post' : α → ν → σ → Prop} {change : σ → σ}

theorem Watches.pure {value : α} (holds : post value view state) :
    Watches monitor (Pure.pure value) post exits view state :=
  fun _ => ⟨trivial, holds⟩

theorem Watches.exit {leave : ε} (holds : exits leave view state) :
    Watches monitor (Action.exit leave) post exits view state :=
  fun _ => ⟨trivial, holds⟩

theorem Watches.modify {post : Unit → ν → σ → Prop} (holds : post () view (change state)) :
    Watches monitor (Action.modify change) post exits view state :=
  fun _ => ⟨trivial, holds⟩

theorem Watches.emit_nil {post : Unit → ν → σ → Prop} (holds : post () view state) :
    Watches monitor (Action.emit []) post exits view state :=
  fun _ => ⟨trivial, holds⟩

theorem Watches.emit {post : Unit → ν → σ → Prop} {mark : τ}
    (guaranteed : monitor.assumed view mark → monitor.guaranteed view mark)
    (holds : monitor.assumed view mark → post () (monitor.next view mark) state) :
    Watches monitor (Action.emit [mark]) post exits view state :=
  fun assumed => ⟨⟨guaranteed assumed.1, trivial⟩, holds assumed.1⟩

theorem Watches.mono (run : Watches monitor action post exits view state)
    (weaker : ∀ value view final, post value view final → post' value view final)
    (weakerExits : ∀ leave view final, exits leave view final → exits' leave view final) :
    Watches monitor action post' exits' view state := by
  intro assumed
  obtain ⟨guaranteed, reached⟩ := run assumed
  refine ⟨guaranteed, ?_⟩
  rcases outcome : (action state).1 with ⟨leave | value, final⟩
  · rw [outcome] at reached
    exact weakerExits _ _ _ reached
  · rw [outcome] at reached
    exact weaker _ _ _ reached

theorem Watches.and {extra : α → σ → Prop} (run : Watches monitor action post exits view state)
    (known : ∀ value final, (action state).1 = (.ok value, final) → extra value final) :
    Watches monitor action (fun value view final => post value view final ∧ extra value final)
      exits view state := by
  intro assumed
  obtain ⟨guaranteed, reached⟩ := run assumed
  refine ⟨guaranteed, ?_⟩
  rcases outcome : (action state).1 with ⟨leave | value, final⟩
  · rw [outcome] at reached
    exact reached
  · rw [outcome] at reached
    exact ⟨reached, known value final outcome⟩

theorem Watches.bind {middle : α → ν → σ → Prop} {post : β → ν → σ → Prop}
    {next : α → Action σ ε τ β} (run : Watches monitor action middle exits view state)
    (rest : ∀ value view final, middle value view final →
      Watches monitor (next value) post exits view final) :
    Watches monitor (action >>= next) post exits view state := by
  have unfolded : (action >>= next) state = Action.bind action next state := rfl
  rw [Watches] at run
  rw [Watches, unfolded, Action.bind]
  rcases outcome : action state with ⟨⟨leave | value, final⟩, marks⟩
  · rw [outcome] at run
    exact run
  · rw [outcome] at run
    simp only [throughout_append, List.foldl_append]
    rintro ⟨assumed, assumedRest⟩
    obtain ⟨guaranteed, holds⟩ := run assumed
    obtain ⟨guaranteedRest, reached⟩ := rest value _ final holds assumedRest
    exact ⟨⟨guaranteed, guaranteedRest⟩, reached⟩

theorem Watches.get_bind {post : β → ν → σ → Prop} {next : σ → Action σ ε τ β}
    (rest : Watches monitor (next state) post exits view state) :
    Watches monitor (Action.get >>= next) post exits view state :=
  rest

theorem Watches.modify_bind {post : β → ν → σ → Prop} {next : Unit → Action σ ε τ β}
    (rest : Watches monitor (next ()) post exits view (change state)) :
    Watches monitor (Action.modify change >>= next) post exits view state :=
  rest

theorem Watches.ite {condition : Prop} [Decidable condition] {left right : Action σ ε τ α}
    (whenTrue : condition → Watches monitor left post exits view state)
    (whenFalse : ¬ condition → Watches monitor right post exits view state) :
    Watches monitor (if condition then left else right) post exits view state := by
  split
  · exact whenTrue ‹_›
  · exact whenFalse ‹_›

theorem Watches.recover {handler : ε → Except ε α}
    (run : Watches monitor action post exits view state)
    (handled : ∀ leave view final, exits leave view final →
      Outcome (fun value => post value view) (fun leave => exits' leave view)
        (handler leave, final)) :
    Watches monitor (Action.recover handler action) post exits' view state := by
  rw [Watches] at run
  rw [Watches, Action.recover]
  rcases outcome : action state with ⟨⟨leave | value, final⟩, marks⟩
  · rw [outcome] at run
    intro assumed
    obtain ⟨guaranteed, reached⟩ := run assumed
    exact ⟨guaranteed, handled _ _ _ reached⟩
  · rw [outcome] at run
    exact run

theorem Watches.ending
    {marksOf : Except ε α → List τ} (run : Watches monitor action post exits view state)
    (marked : ∀ value view final, post value view final →
      Throughout monitor.next monitor.guaranteed view (marksOf (.ok value)) ∧
        post' value ((marksOf (.ok value)).foldl monitor.next view) final)
    (markedExit : ∀ leave view final, exits leave view final →
      Throughout monitor.next monitor.guaranteed view (marksOf (.error leave)) ∧
        exits' leave ((marksOf (.error leave)).foldl monitor.next view) final) :
    Watches monitor (Action.ending marksOf action) post' exits' view state := by
  rw [Watches] at run
  rw [Watches, Action.ending]
  simp only [throughout_append, List.foldl_append]
  rintro ⟨assumed, -⟩
  obtain ⟨guaranteed, reached⟩ := run assumed
  rcases outcome : (action state).1 with ⟨leave | value, final⟩
  · rw [outcome] at reached
    obtain ⟨ends, holds⟩ := markedExit _ _ _ reached
    exact ⟨⟨guaranteed, ends⟩, holds⟩
  · rw [outcome] at reached
    obtain ⟨ends, holds⟩ := marked _ _ _ reached
    exact ⟨⟨guaranteed, ends⟩, holds⟩

end Rules

end OpenCore.MonitoredAction
