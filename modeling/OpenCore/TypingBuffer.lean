import Mathlib.Data.List.Infix
import Mathlib.Logic.Function.Basic

/-!
The buffer between the handler of key events and the keystrokes that are taken from it. The
handler runs between any two statements of the code that takes them or flushes the buffer.
-/

namespace OpenCore.TypingBuffer

open List

section Code

def ocTypingBufferSize : Nat := 21

structure Keystroke where
  appleKeyCode : Nat
  unicodeChar : Nat
  deriving DecidableEq

inductive Point where
  | registered
  | idle
  | tailCleared
  | headCleared
  | found (newTail : Nat)
  | codeRead (newTail appleKeyCode : Nat)
  | keyRead (newTail : Nat) (key : Keystroke)
  deriving DecidableEq

/-- The context, and what was accepted and returned since the flush that came last, with how
many keystrokes were waiting whenever one was dropped. -/
structure State where
  buffer : Nat → Keystroke
  currentModifiers : BitVec 16
  head : Nat
  tail : Nat
  point : Point
  accepted : List Keystroke
  returned : List Keystroke
  drops : List Nat

def following (index : Nat) : Nat := if index + 1 ≥ ocTypingBufferSize then 0 else index + 1

inductive Event where
  | modifierUp (modifiers : BitVec 16)
  | modifierDown (modifiers : BitVec 16)
  | keyDown (key : Keystroke)
  | other

def handleKeyEvent (state : State) : Event → State
  | .modifierUp modifiers =>
    { state with currentModifiers := state.currentModifiers &&& ~~~ modifiers }
  | .modifierDown modifiers =>
    { state with currentModifiers := state.currentModifiers ||| modifiers }
  | .keyDown key =>
    let newHead := following state.head
    if newHead = state.tail then
      { state with drops := (state.accepted.length - state.returned.length) :: state.drops }
    else { state with
      head := newHead
      buffer := Function.update state.buffer newHead key
      accepted := state.accepted ++ [key] }
  | .other => state

inductive Call where
  | flushTypingBuffer
  | getNextKeystroke

def statement (state : State) (call : Call) : State :=
  match state.point, call with
  | .registered, _ | .idle, .flushTypingBuffer =>
    { state with tail := 0, point := .tailCleared, accepted := [], returned := [] }
  | .tailCleared, _ => { state with head := 0, point := .headCleared }
  | .headCleared, _ => { state with currentModifiers := 0, point := .idle }
  | .idle, .getNextKeystroke =>
    if state.tail = state.head then state
    else { state with point := .found (following state.tail) }
  | .found newTail, _ =>
    { state with point := .codeRead newTail (state.buffer newTail).appleKeyCode }
  | .codeRead newTail appleKeyCode, _ =>
    { state with point := .keyRead newTail ⟨appleKeyCode, (state.buffer newTail).unicodeChar⟩ }
  | .keyRead newTail key, _ =>
    { state with tail := newTail, point := .idle, returned := state.returned ++ [key] }

inductive Move where
  | event (event : Event)
  | statement (call : Call)

def step (state : State) : Move → State
  | .event event => handleKeyEvent state event
  | .statement call => statement state call

def run (moves : List Move) (state : State) : State := moves.foldl step state

end Code

section Queue

structure Correct (state : State) : Prop where
  headInside : state.head < ocTypingBufferSize
  tailInside : state.tail < ocTypingBufferSize
  ordered : state.returned <+: state.accepted
  full : ∀ waiting ∈ state.drops, waiting = ocTypingBufferSize - 1

section Rings

variable (buffer : Nat → Keystroke) (head tail : Nat) (accepted returned : List Keystroke)

structure Queued : Prop where
  head : head = accepted.length % ocTypingBufferSize
  tail : tail = returned.length % ocTypingBufferSize
  room : accepted.length < returned.length + ocTypingBufferSize
  waits : ∀ index, returned.length ≤ index → index < accepted.length →
    accepted[index]? = some (buffer ((index + 1) % ocTypingBufferSize))

def NextIs (newTail : Nat) (key : Keystroke) : Prop :=
  newTail = (returned.length + 1) % ocTypingBufferSize ∧ accepted[returned.length]? = some key

def Placed : Point → Prop
  | .registered => accepted = [] ∧ returned = []
  | .tailCleared => tail = 0 ∧ accepted = [] ∧ returned = []
  | .idle | .headCleared => Queued buffer head tail accepted returned
  | .found newTail => Queued buffer head tail accepted returned ∧
      ∃ key, NextIs accepted returned newTail key
  | .codeRead newTail appleKeyCode => Queued buffer head tail accepted returned ∧
      ∃ key, NextIs accepted returned newTail key ∧ appleKeyCode = key.appleKeyCode
  | .keyRead newTail key => Queued buffer head tail accepted returned ∧
      NextIs accepted returned newTail key

end Rings

def State.Queued (state : State) : Prop :=
  TypingBuffer.Queued state.buffer state.head state.tail state.accepted state.returned

def State.Placed (state : State) : Prop :=
  TypingBuffer.Placed state.buffer state.head state.tail state.accepted state.returned
    state.point

/-- No keystroke is handled before the first flush nor between the two assignments of one. -/
def Quiet (state : State) : Move → Prop
  | .event (.keyDown _) => state.point ≠ .registered ∧ state.point ≠ .tailCleared
  | _ => True

def QuietRun : List Move → State → Prop
  | [], _ => True
  | move :: rest, state => Quiet state move ∧ QuietRun rest (step state move)

variable {state : State}

theorem Queued.reads {buffer : Nat → Keystroke} {head tail newTail : Nat}
    {accepted returned : List Keystroke} {key : Keystroke}
    (queued : Queued buffer head tail accepted returned)
    (next : NextIs accepted returned newTail key) : buffer newTail = key := by
  obtain ⟨inside, _⟩ := List.getElem?_eq_some_iff.mp next.2
  have waits := queued.waits _ (le_refl _) inside
  rw [next.2, ← next.1] at waits
  exact (Option.some.inj waits).symm

theorem following_mod (count : Nat) :
    following (count % ocTypingBufferSize) = (count + 1) % ocTypingBufferSize := by
  unfold following ocTypingBufferSize
  split <;> omega

theorem full_iff {count taken : Nat} (behind : taken ≤ count)
    (room : count < taken + ocTypingBufferSize) :
    (count + 1) % ocTypingBufferSize = taken % ocTypingBufferSize ↔
      count - taken = ocTypingBufferSize - 1 := by
  unfold ocTypingBufferSize at *
  omega

theorem slot_ne {index count taken : Nat} (late : taken ≤ index) (early : index < count)
    (room : count < taken + ocTypingBufferSize) :
    (index + 1) % ocTypingBufferSize ≠ (count + 1) % ocTypingBufferSize := by
  unfold ocTypingBufferSize at *
  omega

theorem NextIs.append {accepted returned : List Keystroke} {newTail : Nat}
    {key added : Keystroke} (next : NextIs accepted returned newTail key) :
    NextIs (accepted ++ [added]) returned newTail key := by
  obtain ⟨inside, _⟩ := List.getElem?_eq_some_iff.mp next.2
  exact ⟨next.1, by rw [getElem?_append_left inside, next.2]⟩

/-- The keystroke goes where none is waiting, or is dropped because all the others are. -/
theorem keyDown_queued (queued : state.Queued) (correct : Correct state) (key : Keystroke) :
    (handleKeyEvent state (.keyDown key)).Queued ∧
      Correct (handleKeyEvent state (.keyDown key)) := by
  have behind := correct.ordered.length_le
  have room := queued.room
  have next := following_mod state.accepted.length
  rw [← queued.head] at next
  rw [handleKeyEvent]
  split
  · next full =>
    rw [next, queued.tail] at full
    refine ⟨⟨queued.head, queued.tail, queued.room, queued.waits⟩,
      ⟨correct.headInside, correct.tailInside, correct.ordered, ?_⟩⟩
    rintro waiting (_ | _)
    · exact (full_iff behind room).mp full
    · exact correct.full _ ‹_›
  · next free =>
    rw [next, queued.tail, full_iff behind room] at free
    have grows : (state.accepted ++ [key]).length = state.accepted.length + 1 := by
      rw [length_append, length_singleton]
    refine ⟨⟨?_, queued.tail, ?_, ?_⟩, ⟨?_, correct.tailInside, ?_, correct.full⟩⟩
    · exact next.trans (by rw [grows])
    · dsimp only
      omega
    · intro index late early
      dsimp only at late early ⊢
      by_cases last : index = state.accepted.length
      · rw [last, getElem?_concat_length, next, Function.update_self]
      · have before : index < state.accepted.length := by omega
        rw [next, Function.update_of_ne (slot_ne late before room), getElem?_append_left before]
        exact queued.waits index late before
    · rw [next]
      exact Nat.mod_lt _ (by decide)
    · exact correct.ordered.trans (prefix_append ..)

theorem handleKeyEvent_kept (state : State) (event : Event) :
    (handleKeyEvent state event).point = state.point ∧
      (handleKeyEvent state event).returned = state.returned ∧
      ((handleKeyEvent state event).accepted = state.accepted ∨
        ∃ key, (handleKeyEvent state event).accepted = state.accepted ++ [key]) := by
  cases event with
  | modifierUp | modifierDown | other => exact ⟨rfl, rfl, .inl rfl⟩
  | keyDown key =>
    rw [handleKeyEvent]
    split
    · exact ⟨rfl, rfl, .inl rfl⟩
    · exact ⟨rfl, rfl, .inr ⟨key, rfl⟩⟩

theorem event_inv (correct : Correct state) (placed : state.Placed) {event : Event}
    (quiet : Quiet state (.event event)) :
    Correct (handleKeyEvent state event) ∧ (handleKeyEvent state event).Placed := by
  cases event with
  | modifierUp | modifierDown | other =>
    exact ⟨⟨correct.headInside, correct.tailInside, correct.ordered, correct.full⟩, placed⟩
  | keyDown key =>
    obtain ⟨point, returned, accepted⟩ := handleKeyEvent_kept state (.keyDown key)
    have later {newTail : Nat} {next : Keystroke}
        (there : NextIs state.accepted state.returned newTail next) :
        NextIs (handleKeyEvent state (.keyDown key)).accepted
          (handleKeyEvent state (.keyDown key)).returned newTail next := by
      rw [returned]
      rcases accepted with same | ⟨added, more⟩
      · rwa [same]
      · rw [more]
        exact there.append
    unfold State.Placed at placed ⊢
    rw [point]
    cases here : state.point with
    | registered => exact absurd here quiet.1
    | tailCleared => exact absurd here quiet.2
    | idle | headCleared =>
      rw [here] at placed
      exact (keyDown_queued placed correct key).symm
    | found newTail =>
      rw [here] at placed
      obtain ⟨queued, next, there⟩ := placed
      obtain ⟨still, right⟩ := keyDown_queued queued correct key
      exact ⟨right, still, next, later there⟩
    | codeRead newTail appleKeyCode =>
      rw [here] at placed
      obtain ⟨queued, next, there, code⟩ := placed
      obtain ⟨still, right⟩ := keyDown_queued queued correct key
      exact ⟨right, still, next, later there, code⟩
    | keyRead newTail next =>
      rw [here] at placed
      obtain ⟨still, right⟩ := keyDown_queued placed.1 correct key
      exact ⟨right, still, later placed.2⟩

theorem statement_inv (correct : Correct state) (placed : state.Placed) (call : Call) :
    Correct (statement state call) ∧ (statement state call).Placed := by
  obtain ⟨headInside, tailInside, ordered, full⟩ := correct
  have positive : 0 < ocTypingBufferSize := by decide
  unfold State.Placed at placed ⊢
  have flushed : Correct { state with
      tail := 0, point := .tailCleared, accepted := [], returned := [] } :=
    ⟨headInside, positive, prefix_rfl, full⟩
  unfold statement
  cases here : state.point with
  | registered => exact ⟨flushed, rfl, rfl, rfl⟩
  | tailCleared =>
    rw [here] at placed
    obtain ⟨cleared, none, nothing⟩ := placed
    refine ⟨⟨positive, tailInside, ordered, full⟩, ?_⟩
    simp only [Placed, cleared, none, nothing]
    exact ⟨rfl, rfl, by decide, fun _ _ none => absurd none (Nat.not_lt_zero _)⟩
  | headCleared =>
    rw [here] at placed
    exact ⟨⟨headInside, tailInside, ordered, full⟩, placed⟩
  | idle =>
    rw [here] at placed
    cases call with
    | flushTypingBuffer => exact ⟨flushed, rfl, rfl, rfl⟩
    | getNextKeystroke =>
      dsimp only
      split
      · refine ⟨⟨headInside, tailInside, ordered, full⟩, ?_⟩
        rw [here]
        exact placed
      · next waiting =>
        have more : state.returned.length < state.accepted.length := by
          refine lt_of_le_of_ne ordered.length_le fun same => waiting ?_
          rw [placed.tail, placed.head, same]
        refine ⟨⟨headInside, tailInside, ordered, full⟩, placed, _, ?_, getElem?_eq_getElem more⟩
        rw [placed.tail, following_mod]
  | found newTail =>
    rw [here] at placed
    obtain ⟨queued, key, next⟩ := placed
    refine ⟨⟨headInside, tailInside, ordered, full⟩, queued, key, next, ?_⟩
    rw [queued.reads next]
  | codeRead newTail appleKeyCode =>
    rw [here] at placed
    obtain ⟨queued, key, next, rfl⟩ := placed
    refine ⟨⟨headInside, tailInside, ordered, full⟩, queued, ?_⟩
    rw [queued.reads next]
    exact next
  | keyRead newTail key =>
    rw [here] at placed
    obtain ⟨queued, rfl, next⟩ := placed
    obtain ⟨inside, _⟩ := List.getElem?_eq_some_iff.mp next
    have room := queued.room
    have grows : (state.returned ++ [key]).length = state.returned.length + 1 := by
      rw [length_append, length_singleton]
    refine ⟨⟨headInside, Nat.mod_lt _ positive, ?_, full⟩, queued.head, ?_, ?_, ?_⟩
    · obtain ⟨more, split⟩ := ordered
      rw [← split, getElem?_append_right (le_refl _), Nat.sub_self] at next
      cases more with
      | nil => cases next
      | cons first rest =>
        obtain rfl := Option.some.inj next
        exact ⟨rest, by rw [← split, append_assoc, singleton_append]⟩
    · rw [grows]
    · dsimp only
      omega
    · intro index late early
      dsimp only at late
      exact queued.waits index (by omega) early

theorem run_inv {moves : List Move} (correct : Correct state) (placed : state.Placed)
    (quiet : QuietRun moves state) : Correct (run moves state) := by
  induction moves generalizing state with
  | nil => exact correct
  | cons move rest ih =>
    have next : Correct (step state move) ∧ (step state move).Placed := by
      cases move with
      | event event => exact event_inv correct placed quiet.1
      | statement call => exact statement_inv correct placed call
    exact ih next.1 next.2 quiet.2

/-- From a context whose indices happen to be within the buffer, every run without keystrokes
during a flush keeps them within, returns keystrokes in order and drops only what has no room. -/
theorem run_correct {start : State} {moves : List Move} (registered : start.point = .registered)
    (accepted : start.accepted = []) (returned : start.returned = []) (drops : start.drops = [])
    (head : start.head < ocTypingBufferSize) (tail : start.tail < ocTypingBufferSize)
    (quiet : QuietRun moves start) : Correct (run moves start) := by
  refine run_inv ⟨head, tail, ?_, ?_⟩ ?_ quiet
  · rw [returned]
    exact nil_prefix
  · rw [drops]
    exact fun _ none => absurd none not_mem_nil
  · unfold State.Placed
    rw [registered]
    exact ⟨accepted, returned⟩

def allocated (head tail : Nat) : State :=
  ⟨fun _ => ⟨0, 0⟩, 0, head, tail, .registered, [], [], []⟩

def flush : List Move := replicate 3 (.statement .flushTypingBuffer)
def press (code : Nat) : Move := .event (.keyDown ⟨code, code⟩)

/-- Keystrokes 5 and 6 come while 4 is being read. -/
def pressed : List Move :=
  let read := .statement .getNextKeystroke
  flush ++ [press 4, read, press 5, read, .event (.modifierDown 1), read, press 6] ++
    replicate 5 read

theorem run_correct_key :
    Correct (run pressed (allocated 0 0)) ∧
      (run pressed (allocated 0 0)).returned = [⟨4, 4⟩, ⟨5, 5⟩] :=
  ⟨run_correct rfl rfl rfl rfl (by decide) (by decide)
    ⟨trivial, trivial, trivial, ⟨by decide, by decide⟩, trivial, ⟨by decide, by decide⟩, trivial,
      trivial, trivial, ⟨by decide, by decide⟩, trivial, trivial, trivial, trivial, trivial, trivial⟩,
    by decide⟩

/-- A keystroke is handled with the indices of fresh memory, and one during a flush is lost. -/
theorem keystrokes_lost :
    ¬ Correct (run [press 4] (allocated 0 1)) ∧
      ¬ Correct (run (flush ++ .statement .flushTypingBuffer :: press 4 :: replicate 2
        (.statement .flushTypingBuffer) ++ press 5 :: replicate 4 (.statement .getNextKeystroke))
          (allocated 0 0)) := by
  refine ⟨fun correct => ?_, fun correct => ?_⟩
  · exact absurd (correct.full 0 (by decide)) (by decide)
  · exact absurd correct.ordered (by decide)

end Queue

end OpenCore.TypingBuffer
