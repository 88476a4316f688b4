import OpenCore.LoadCommands

/-!
How the load commands an injected kext does not need are stripped from its header. The
loop moves the commands behind a stripped one down, and goes on behind the command that
is now in its place: that one is not looked at, and it is its size that is taken off.
-/

namespace OpenCore.StripCommands

open Base AddressSpace PlacedBytes MachoHeader LoadCommands List

section Source

def loadCommandsToStrip : List Nat :=
  [29, 34, 34 + 0x80000000, 38, 41, 43, 5]

structure Stripping where
  memory : Memory
  numCommands : Nat
  commandsSize : Nat
  loadCommand : Nat
  sizeOfLeftCommands : Nat

def Stripping.strip (header : Stripping) (index : Nat) : Stripping :=
  let memory :=
    if index ≠ header.numCommands - 1 then
      copyMem header.memory header.loadCommand
        (nextLoadCommand header.memory header.loadCommand) header.sizeOfLeftCommands
    else header.memory
  { header with
    memory := memory
    numCommands := header.numCommands - 1
    commandsSize := (header.commandsSize + u32 - commandSize memory header.loadCommand) % u32 }

def Stripping.count (header : Stripping) : Stripping :=
  { header with
    sizeOfLeftCommands :=
      (header.sizeOfLeftCommands + u32 - commandSize header.memory header.loadCommand) % u32 }

def Stripping.next (header : Stripping) : Stripping :=
  { header with loadCommand := nextLoadCommand header.memory header.loadCommand }

def Stripping.turn (header : Stripping) (index : Nat) : Stripping :=
  if commandType header.memory header.loadCommand ∈ loadCommandsToStrip then
    (header.count.strip index).next
  else header.count.next

theorem strip_numCommands (header : Stripping) (index : Nat) :
    (header.strip index).numCommands = header.numCommands - 1 := rfl

theorem count_numCommands (header : Stripping) : header.count.numCommands = header.numCommands := by
  cases header
  rfl

theorem next_numCommands (header : Stripping) : header.next.numCommands = header.numCommands := rfl

theorem turn_numCommands (header : Stripping) (index : Nat) :
    (header.turn index).numCommands ≤ header.numCommands := by
  rw [Stripping.turn]
  split
  · rw [next_numCommands, strip_numCommands, count_numCommands]
    exact Nat.sub_le _ _
  · rw [next_numCommands, count_numCommands]

def stripFrom (index : Nat) (header : Stripping) : Stripping :=
  if index < header.numCommands then stripFrom (index + 1) (header.turn index) else header
termination_by header.numCommands - index
decreasing_by
  have fewer := turn_numCommands header index
  omega

/-- `InternalStripLoadCommands` of a header whose commands are at an address. -/
def internalStripLoadCommands (memory : Memory) (commands numCommands commandsSize : Nat) :
    Stripping :=
  let stripped := stripFrom 0 ⟨memory, numCommands, commandsSize, commands, commandsSize⟩
  { stripped with
    memory := zeroMem stripped.memory stripped.loadCommand
      ((commandsSize + u32 - stripped.commandsSize) % u32) }

end Source

section Runs

def Strippable (command : LoadCommand) : Prop := command.type ∈ loadCommandsToStrip

instance (command : LoadCommand) : Decidable (Strippable command) :=
  inferInstanceAs (Decidable (_ ∈ _))

def passed : List LoadCommand → List LoadCommand
  | [] => []
  | [command] => [command]
  | command :: follower :: rest =>
    if Strippable command then follower :: passed rest else command :: passed (follower :: rest)

def strips : List LoadCommand → Nat
  | [] => 0
  | [command] => if Strippable command then 1 else 0
  | command :: follower :: rest =>
    if Strippable command then strips rest + 1 else strips (follower :: rest)

def taken : List LoadCommand → Nat
  | [] => 0
  | [command] => if Strippable command then command.size else 0
  | command :: follower :: rest =>
    if Strippable command then follower.size + taken rest else taken (follower :: rest)

structure At (base index : Nat) (done rest : List LoadCommand) (header : Stripping) : Prop where
  walked : Holds header.memory base (allBytes done)
  left : Holds header.memory (base + totalSize done) (allBytes rest)
  place : header.loadCommand = base + totalSize done
  numCommands : header.numCommands = index + rest.length
  sizeOfLeft : totalSize rest ≤ header.sizeOfLeftCommands
  sizeOfLeft_lt : header.sizeOfLeftCommands < u32
  commandsSize : totalSize rest ≤ header.commandsSize
  commandsSize_lt : header.commandsSize < u32

structure Ended (base : Nat) (done : List LoadCommand) (header : Stripping) : Prop where
  walked : Holds header.memory base (allBytes done)
  place : header.loadCommand = base + totalSize done

variable {base index : Nat} {done rest : List LoadCommand} {command follower : LoadCommand}
  {header : Stripping}

variable (state : At base index done (command :: rest) header)
include state

theorem count_spec :
    header.count = { header with
      sizeOfLeftCommands := header.sizeOfLeftCommands - command.size } := by
  have first := (holds_cons.mp state.left).1
  have enough := state.sizeOfLeft
  rw [totalSize_cons] at enough
  rw [Stripping.count, state.place, commandSize_eq first,
    sub_u32 (le_trans (Nat.le_add_right _ _) enough) state.sizeOfLeft_lt, ← state.place]

theorem type_spec :
    commandType header.memory header.loadCommand ∈ loadCommandsToStrip ↔ Strippable command := by
  rw [state.place, commandType_eq (holds_cons.mp state.left).1]
  rfl

theorem turn_kept (kept : ¬Strippable command) :
    header.turn index = { header with
      sizeOfLeftCommands := header.sizeOfLeftCommands - command.size
      loadCommand := header.loadCommand + command.size } := by
  have size := commandSize_eq (holds_cons.mp state.left).1
  rw [← state.place] at size
  rw [Stripping.turn, if_neg (mt (type_spec state).mp kept), count_spec state, Stripping.next,
    nextLoadCommand, size]

theorem moved_holds :
    Holds (copyMem header.memory header.loadCommand (header.loadCommand + command.size)
      (header.sizeOfLeftCommands - command.size)) (base + totalSize done) (allBytes rest) := by
  have enough := state.sizeOfLeft
  rw [totalSize_cons] at enough
  rw [state.place]
  apply (holds_cons.mp state.left).2.copied
  rw [length_allBytes]
  omega

omit state in
theorem turn_stripped (state : At base index done (command :: follower :: rest) header)
    (strippable : Strippable command) :
    header.turn index = {
      memory := copyMem header.memory header.loadCommand (header.loadCommand + command.size)
        (header.sizeOfLeftCommands - command.size)
      numCommands := header.numCommands - 1
      commandsSize := header.commandsSize - follower.size
      loadCommand := header.loadCommand + follower.size
      sizeOfLeftCommands := header.sizeOfLeftCommands - command.size } := by
  have size := commandSize_eq (holds_cons.mp state.left).1
  have behind := commandSize_eq (holds_cons.mp (moved_holds state)).1
  rw [← state.place] at size behind
  have before : index ≠ header.numCommands - 1 := by
    rw [state.numCommands, length_cons, length_cons]
    omega
  have enough := state.commandsSize
  rw [totalSize_cons, totalSize_cons] at enough
  rw [Stripping.turn, if_pos ((type_spec state).mpr strippable), count_spec state]
  unfold Stripping.strip Stripping.next
  dsimp only
  rw [if_pos before, nextLoadCommand, nextLoadCommand, size, behind,
    sub_u32 (by omega) state.commandsSize_lt]

omit state in
theorem turn_last (state : At base index done [command] header) (strippable : Strippable command) :
    header.turn index = { header with
      numCommands := header.numCommands - 1
      commandsSize := header.commandsSize - command.size
      loadCommand := header.loadCommand + command.size
      sizeOfLeftCommands := header.sizeOfLeftCommands - command.size } := by
  have size := commandSize_eq (holds_cons.mp state.left).1
  rw [← state.place] at size
  have last : ¬index ≠ header.numCommands - 1 := by
    rw [state.numCommands, length_singleton]
    omega
  have enough := state.commandsSize
  rw [totalSize_cons, totalSize_nil, add_zero] at enough
  rw [Stripping.turn, if_pos ((type_spec state).mpr strippable), count_spec state]
  unfold Stripping.strip Stripping.next
  dsimp only
  rw [if_neg last, nextLoadCommand, size, sub_u32 enough state.commandsSize_lt]

theorem at_kept (kept : ¬Strippable command) :
    At base (index + 1) (done ++ [command]) rest (header.turn index) := by
  obtain ⟨first, behind⟩ := holds_cons.mp state.left
  have left := state.sizeOfLeft
  have enough := state.commandsSize
  have numbers := state.numCommands
  rw [totalSize_cons] at left enough
  rw [length_cons] at numbers
  rw [turn_kept state kept]
  constructor
  · rw [allBytes_append, allBytes_cons, allBytes_nil, append_nil, holds_append, length_allBytes]
    exact ⟨state.walked, first⟩
  · rwa [totalSize_append, totalSize_cons, totalSize_nil, ← add_assoc]
  · rw [totalSize_append, totalSize_cons, totalSize_nil, ← add_assoc]
    exact congrArg (· + command.size) state.place
  · exact numbers.trans (by omega)
  · exact Nat.le_sub_of_add_le (by omega)
  · exact lt_of_le_of_lt (Nat.sub_le _ _) state.sizeOfLeft_lt
  · exact le_trans (Nat.le_add_left _ _) enough
  · exact state.commandsSize_lt

omit state in
theorem at_stripped (state : At base index done (command :: follower :: rest) header)
    (strippable : Strippable command) :
    At base (index + 1) (done ++ [follower]) rest (header.turn index) := by
  obtain ⟨first, behind⟩ := holds_cons.mp (moved_holds state)
  have left := state.sizeOfLeft
  have enough := state.commandsSize
  have numbers := state.numCommands
  rw [totalSize_cons, totalSize_cons] at left enough
  rw [length_cons, length_cons] at numbers
  rw [turn_stripped state strippable]
  constructor
  · rw [allBytes_append, allBytes_cons, allBytes_nil, append_nil, holds_append, length_allBytes]
    refine ⟨state.walked.copy_frame (Or.inl ?_), first⟩
    rw [length_allBytes, state.place]
  · rwa [totalSize_append, totalSize_cons, totalSize_nil, ← add_assoc]
  · rw [totalSize_append, totalSize_cons, totalSize_nil, ← add_assoc]
    exact congrArg (· + follower.size) state.place
  · show header.numCommands - 1 = _
    omega
  · exact Nat.le_sub_of_add_le (by omega)
  · exact lt_of_le_of_lt (Nat.sub_le _ _) state.sizeOfLeft_lt
  · exact Nat.le_sub_of_add_le (by omega)
  · exact lt_of_le_of_lt (Nat.sub_le _ _) state.commandsSize_lt

theorem stripFrom_turn :
    stripFrom index header = stripFrom (index + 1) (header.turn index) := by
  have numbers := state.numCommands
  rw [length_cons] at numbers
  rw [stripFrom, if_pos (by omega)]

omit state in
theorem stripFrom_stop (ended : header.numCommands ≤ index) : stripFrom index header = header := by
  rw [stripFrom, if_neg (not_lt.mpr ended)]

omit state in
theorem ended_one (state : At base index done [command] header)
    {last : Stripping} (memory : last.memory = header.memory)
    (place : last.loadCommand = header.loadCommand + command.size) :
    Ended base (done ++ [command]) last := by
  constructor
  · rw [memory, allBytes_append, holds_append, length_allBytes]
    exact ⟨state.walked, state.left⟩
  · rw [place, state.place, totalSize_append, totalSize_cons, totalSize_nil, add_zero, add_assoc]

omit state in
theorem stripFrom_run {commands : List LoadCommand} (state : At base index done commands header) :
    Ended base (done ++ passed commands) (stripFrom index header) ∧
      (stripFrom index header).numCommands + strips commands = header.numCommands ∧
      (stripFrom index header).commandsSize + taken commands = header.commandsSize := by
  induction commands using passed.induct generalizing index done header with
  | case1 =>
    have stopped : header.numCommands ≤ index := le_of_eq state.numCommands
    rw [stripFrom_stop stopped, passed, append_nil]
    exact ⟨⟨state.walked, state.place⟩, rfl, rfl⟩
  | case2 command =>
    have numbers := state.numCommands
    have enough := state.commandsSize
    rw [length_singleton] at numbers
    rw [totalSize_cons, totalSize_nil, add_zero] at enough
    rw [stripFrom_turn state, passed, strips, taken]
    by_cases strippable : Strippable command
    · have stopped : header.numCommands - 1 ≤ index + 1 := by omega
      rw [turn_last state strippable, if_pos strippable, if_pos strippable, stripFrom_stop stopped]
      exact ⟨ended_one state rfl rfl, by dsimp only; omega, Nat.sub_add_cancel enough⟩
    · have stopped : (header.turn index).numCommands ≤ index + 1 := by
        rw [turn_kept state strippable]
        exact le_of_eq numbers
      rw [stripFrom_stop stopped, turn_kept state strippable, if_neg strippable, if_neg strippable]
      exact ⟨ended_one state rfl rfl, rfl, rfl⟩
  | case3 command follower rest strippable ih =>
    obtain ⟨ended, numbers, sizes⟩ := ih (at_stripped state strippable)
    have counted := state.numCommands
    have enough := state.commandsSize
    rw [length_cons, length_cons] at counted
    rw [totalSize_cons, totalSize_cons] at enough
    have fewer : (header.turn index).numCommands = header.numCommands - 1 := by
      rw [turn_stripped state strippable]
    have smaller : (header.turn index).commandsSize = header.commandsSize - follower.size := by
      rw [turn_stripped state strippable]
    rw [stripFrom_turn state, passed, strips, taken, if_pos strippable, if_pos strippable,
      if_pos strippable]
    refine ⟨?_, by omega, by omega⟩
    rwa [append_assoc, singleton_append] at ended
  | case4 command follower rest kept ih =>
    obtain ⟨ended, numbers, sizes⟩ := ih (at_kept state kept)
    have same : (header.turn index).numCommands = header.numCommands := by
      rw [turn_kept state kept]
    have all : (header.turn index).commandsSize = header.commandsSize := by
      rw [turn_kept state kept]
    rw [stripFrom_turn state, passed, strips, taken, if_neg kept, if_neg kept, if_neg kept]
    refine ⟨?_, numbers.trans same, sizes.trans all⟩
    rwa [append_assoc, singleton_append] at ended

end Runs

end OpenCore.StripCommands
