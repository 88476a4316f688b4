import OpenCore.MachoHeader
import OpenCore.PlacedBytes

/-!
The load commands of a Mach-O header as they stand one after the other in memory. A command
begins with its type and its size; `NEXT_MACH_LOAD_COMMAND` goes from one to the next by
the size, and so a walk gives back the commands that were placed.
-/

namespace OpenCore.LoadCommands

open Base AddressSpace PlacedBytes MachoHeader List

@[ext]
structure LoadCommand where
  bytes : List UInt8
  minimal : 8 ≤ bytes.length
  sized : field bytes 4 4 = bytes.length
  deriving DecidableEq

namespace LoadCommand

def size (command : LoadCommand) : Nat := command.bytes.length

def type (command : LoadCommand) : Nat := field command.bytes 4 0

end LoadCommand

def LoadCommand.make (type : Nat) (payload : List UInt8) (small : 8 + payload.length < u32) :
    LoadCommand where
  bytes := bytesOf 4 type ++ (bytesOf 4 (8 + payload.length) ++ payload)
  minimal := by
    simp only [length_append, length_bytesOf]
    omega
  sized := by
    have skipped := field_append_right (bytesOf 4 type) (bytesOf 4 (8 + payload.length) ++ payload) 4 0
    rw [length_bytesOf, add_zero] at skipped
    have modulus : 256 ^ 4 = u32 := by decide
    rw [skipped, field_append_left (by rw [length_bytesOf]), field_bytesOf, modulus,
      Nat.mod_eq_of_lt small]
    simp only [length_append, length_bytesOf]
    omega

theorem LoadCommand.make_bytes (type : Nat) (payload : List UInt8)
    (small : 8 + payload.length < u32) :
    (make type payload small).bytes = bytesOf 4 type ++ (bytesOf 4 (8 + payload.length) ++ payload) :=
  rfl

@[simp] theorem LoadCommand.make_size (type : Nat) (payload : List UInt8)
    (small : 8 + payload.length < u32) : (make type payload small).size = 8 + payload.length := by
  rw [size, make]
  simp only [length_append, length_bytesOf]
  omega

def nextLoadCommand (memory : Memory) (loadCommand : Nat) : Nat :=
  loadCommand + commandSize memory loadCommand

def allBytes (commands : List LoadCommand) : List UInt8 := commands.flatMap LoadCommand.bytes
def totalSize (commands : List LoadCommand) : Nat := (commands.map LoadCommand.size).sum

def walk (memory : Memory) : Nat → Nat → List (List UInt8)
  | 0, _ => []
  | left + 1, loadCommand =>
    bytesAt memory loadCommand (commandSize memory loadCommand) ::
      walk memory left (nextLoadCommand memory loadCommand)

variable {memory : Memory} {loadCommand : Nat} {command : LoadCommand}
  {commands front rest : List LoadCommand}

@[simp] theorem allBytes_nil : allBytes [] = [] := rfl

@[simp] theorem allBytes_cons :
    allBytes (command :: rest) = command.bytes ++ allBytes rest := flatMap_cons

@[simp] theorem allBytes_append : allBytes (front ++ rest) = allBytes front ++ allBytes rest :=
  flatMap_append

@[simp] theorem totalSize_nil : totalSize [] = 0 := rfl

@[simp] theorem totalSize_cons : totalSize (command :: rest) = command.size + totalSize rest := rfl

@[simp] theorem totalSize_append : totalSize (front ++ rest) = totalSize front + totalSize rest := by
  rw [totalSize, map_append, sum_append]
  rfl

@[simp] theorem length_allBytes : (allBytes commands).length = totalSize commands := by
  induction commands with
  | nil => rfl
  | cons command rest ih =>
    rw [allBytes_cons, length_append, ih]
    rfl

theorem sub_u32 {value size : Nat} (enough : size ≤ value) (bounded : value < u32) :
    (value + u32 - size) % u32 = value - size := by
  rw [Nat.sub_add_comm enough, Nat.add_mod_right]
  exact Nat.mod_eq_of_lt (lt_of_le_of_lt (Nat.sub_le _ _) bounded)

theorem LoadCommand.size_pos (command : LoadCommand) : 0 < command.size :=
  lt_of_lt_of_le (by decide) command.minimal

theorem size_le_totalSize (member : command ∈ commands) : command.size ≤ totalSize commands := by
  induction member with
  | head rest => exact Nat.le_add_right _ _
  | tail other _ ih => exact le_trans ih (Nat.le_add_left _ _)

theorem holds_cons : Holds memory loadCommand (allBytes (command :: rest)) ↔
    Holds memory loadCommand command.bytes ∧
      Holds memory (loadCommand + command.size) (allBytes rest) := by
  rw [allBytes_cons]
  exact holds_append

theorem commandType_eq (holds : Holds memory loadCommand command.bytes) :
    commandType memory loadCommand = command.type := by
  have inside : 0 + 4 ≤ command.bytes.length := le_trans (by decide) command.minimal
  exact holds.load inside

theorem commandSize_eq (holds : Holds memory loadCommand command.bytes) :
    commandSize memory loadCommand = command.size := by
  have inside : 4 + 4 ≤ command.bytes.length := command.minimal
  exact (holds.load inside).trans command.sized

theorem command_unique {other : LoadCommand} (holds : Holds memory loadCommand command.bytes)
    (same : Holds memory loadCommand other.bytes) : command = other := by
  have sizes : command.size = other.size := (commandSize_eq holds).symm.trans (commandSize_eq same)
  exact LoadCommand.ext (holds.unique same sizes)

theorem walk_eq (holds : Holds memory loadCommand (allBytes commands)) :
    walk memory commands.length loadCommand = commands.map LoadCommand.bytes := by
  induction commands generalizing loadCommand with
  | nil => rfl
  | cons command rest ih =>
    obtain ⟨first, others⟩ := holds_cons.mp holds
    have size := commandSize_eq first
    rw [length_cons, walk, nextLoadCommand, size, ih others, map_cons]
    congr 1
    exact first.bytesAt

end OpenCore.LoadCommands
