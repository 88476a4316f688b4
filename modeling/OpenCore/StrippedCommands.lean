import Mathlib.Data.List.Chain
import OpenCore.StripCommands

/-!
When the strippable load commands, and no others, are gone. Each of them has to have a
follower that stays, because the loop does not look at the followers, and the followers
have to be of the same sizes together, because theirs are taken off.
-/

namespace OpenCore.StrippedCommands

open Base AddressSpace PlacedBytes MachoHeader LoadCommands StripCommands List

section Lists

def kept (commands : List LoadCommand) : List LoadCommand :=
  commands.filter fun command => ¬Strippable command

def removed (commands : List LoadCommand) : List LoadCommand :=
  commands.filter fun command => Strippable command

def Apart (commands : List LoadCommand) : Prop :=
  commands.IsChain fun command follower => ¬(Strippable command ∧ Strippable follower)

def followersSize : List LoadCommand → Nat
  | [] => 0
  | [_] => 0
  | command :: follower :: rest =>
    (if Strippable command then follower.size else 0) + followersSize (follower :: rest)

variable {commands rest : List LoadCommand} {command : LoadCommand}

theorem kept_cons_stripped (strippable : Strippable command) :
    kept (command :: rest) = kept rest := by
  rw [kept, filter_cons_of_neg (by simpa using strippable)]
  rfl

theorem kept_cons (stays : ¬Strippable command) : kept (command :: rest) = command :: kept rest := by
  rw [kept, filter_cons_of_pos (by simpa using stays)]
  rfl

theorem removed_cons_stripped (strippable : Strippable command) :
    removed (command :: rest) = command :: removed rest := by
  rw [removed, filter_cons_of_pos (by simpa using strippable)]
  rfl

theorem removed_cons (stays : ¬Strippable command) : removed (command :: rest) = removed rest := by
  rw [removed, filter_cons_of_neg (by simpa using stays)]
  rfl

theorem kept_removed (commands : List LoadCommand) :
    (kept commands).length + (removed commands).length = commands.length ∧
      totalSize (kept commands) + totalSize (removed commands) = totalSize commands := by
  induction commands with
  | nil => exact ⟨rfl, rfl⟩
  | cons command rest ih =>
    obtain ⟨number, size⟩ := ih
    by_cases strippable : Strippable command
    · rw [kept_cons_stripped strippable, removed_cons_stripped strippable]
      simp only [length_cons, totalSize_cons]
      omega
    · rw [kept_cons strippable, removed_cons strippable]
      simp only [length_cons, totalSize_cons]
      omega

theorem strips_le (commands : List LoadCommand) :
    strips commands ≤ (removed commands).length ∧
      (strips commands = (removed commands).length → Apart commands) := by
  induction commands using passed.induct with
  | case1 => exact ⟨Nat.le_refl _, fun _ => .nil⟩
  | case2 command =>
    refine ⟨?_, fun _ => .singleton _⟩
    by_cases strippable : Strippable command
    · rw [strips, if_pos strippable, removed_cons_stripped strippable]
      exact Nat.le_refl _
    · rw [strips, if_neg strippable]
      exact Nat.zero_le _
  | case3 command follower rest strippable ih =>
    obtain ⟨fewer, apart⟩ := ih
    rw [strips, if_pos strippable, removed_cons_stripped strippable, length_cons]
    by_cases both : Strippable follower
    · rw [removed_cons_stripped both, length_cons]
      exact ⟨by omega, fun same => absurd same (by omega)⟩
    · rw [removed_cons both]
      refine ⟨Nat.succ_le_succ fewer, fun same => ?_⟩
      refine .cons_cons (fun adjacent => both adjacent.2) ?_
      exact (apart (Nat.succ.inj same)).cons fun next _ adjacent => both adjacent.1
  | case4 command follower rest stays ih =>
    rw [strips, if_neg stays, removed_cons stays]
    exact ⟨ih.1, fun same => .cons_cons (fun adjacent => stays adjacent.1) (ih.2 same)⟩

theorem strips_apart (apart : Apart commands) : strips commands = (removed commands).length := by
  induction commands using passed.induct with
  | case1 => rfl
  | case2 command =>
    by_cases strippable : Strippable command
    · rw [strips, if_pos strippable, removed_cons_stripped strippable]
      rfl
    · rw [strips, if_neg strippable, removed_cons strippable]
      rfl
  | case3 command follower rest strippable ih =>
    rw [Apart, isChain_cons_cons] at apart
    have stays : ¬Strippable follower := fun both => apart.1 ⟨strippable, both⟩
    rw [strips, if_pos strippable, removed_cons_stripped strippable, removed_cons stays,
      ih apart.2.tail]
    rfl
  | case4 command follower rest stays ih =>
    rw [Apart, isChain_cons_cons] at apart
    rw [strips, if_neg stays, removed_cons stays, ih apart.2]

def lastStripped (commands : List LoadCommand) : List LoadCommand :=
  (commands.getLast?.filter fun last => Strippable last).toList

theorem lastStripped_cons (stays : ¬Strippable command) :
    lastStripped (command :: rest) = lastStripped rest := by
  cases rest with
  | nil =>
    rw [lastStripped, getLast?_singleton, Option.filter_some, if_neg (by simpa using stays)]
    rfl
  | cons follower rest => rw [lastStripped, getLast?_cons_cons, lastStripped]

theorem followersSize_cons (stays : ¬Strippable command) :
    followersSize (command :: rest) = followersSize rest := by
  cases rest with
  | nil => rfl
  | cons follower rest => rw [followersSize, if_neg stays, zero_add]

/-- Where the strippable commands are apart, the loop leaves the others, and a last one
that was stripped. -/
theorem passed_apart (apart : Apart commands) :
    passed commands = kept commands ++ lastStripped commands := by
  induction commands using passed.induct with
  | case1 => rfl
  | case2 command =>
    by_cases strippable : Strippable command
    · rw [kept_cons_stripped strippable, passed, lastStripped, getLast?_singleton,
        Option.filter_some, if_pos (by simpa using strippable)]
      rfl
    · rw [kept_cons strippable, passed, lastStripped_cons strippable]
      rfl
  | case3 command follower rest strippable ih =>
    rw [Apart, isChain_cons_cons] at apart
    have stays : ¬Strippable follower := fun both => apart.1 ⟨strippable, both⟩
    rw [passed, if_pos strippable, ih apart.2.tail, kept_cons_stripped strippable,
      kept_cons stays, cons_append, lastStripped, lastStripped, getLast?_cons_cons,
      ← lastStripped, ← lastStripped, lastStripped_cons stays]
  | case4 command follower rest stays ih =>
    rw [Apart, isChain_cons_cons] at apart
    rw [passed, if_neg stays, ih apart.2, kept_cons stays, cons_append, lastStripped_cons stays]

theorem taken_apart (apart : Apart commands) (last : lastStripped commands = []) :
    taken commands = followersSize commands := by
  induction commands using passed.induct with
  | case1 => rfl
  | case2 command =>
    have stays : ¬Strippable command := by
      intro strippable
      rw [lastStripped, getLast?_singleton, Option.filter_some,
        if_pos (by simpa using strippable)] at last
      cases last
    rw [taken, if_neg stays, followersSize]
  | case3 command follower rest strippable ih =>
    rw [Apart, isChain_cons_cons] at apart
    have stays : ¬Strippable follower := fun both => apart.1 ⟨strippable, both⟩
    rw [lastStripped, getLast?_cons_cons, ← lastStripped, lastStripped_cons stays] at last
    rw [taken, if_pos strippable, followersSize, if_pos strippable, ih apart.2.tail last,
      followersSize_cons stays]
  | case4 command follower rest stays ih =>
    rw [Apart, isChain_cons_cons] at apart
    rw [lastStripped_cons stays] at last
    rw [taken, if_neg stays, ih apart.2 last, followersSize_cons stays]

theorem lastStripped_nil :
    lastStripped commands = [] ↔ ∀ last, commands.getLast? = some last → ¬Strippable last := by
  rw [lastStripped, Option.toList_eq_nil_iff, Option.filter_eq_none_iff]
  simp

end Lists

section Headers

structure Stripped (base : Nat) (commands : List LoadCommand) (header : Stripping) : Prop where
  numCommands : header.numCommands = (kept commands).length
  commandsSize : header.commandsSize = totalSize (kept commands)
  holds : Holds header.memory base (allBytes (kept commands))
  tail : Zeroed header.memory (base + totalSize (kept commands))
    (totalSize commands - totalSize (kept commands))

/-- Every strippable command is followed by one that stays, and these are of the same size
together. -/
structure Separated (commands : List LoadCommand) : Prop where
  apart : Apart commands
  last : ∀ last, commands.getLast? = some last → ¬Strippable last
  sizes : followersSize commands = totalSize (removed commands)

variable {memory : Memory} {base : Nat} {commands : List LoadCommand}

theorem internalStripLoadCommands_spec (holds : Holds memory base (allBytes commands))
    (bounded : totalSize commands < u32) :
    ∃ header, internalStripLoadCommands memory base commands.length (totalSize commands) = header ∧
      Holds header.memory base (allBytes (passed commands)) ∧
      Zeroed header.memory (base + totalSize (passed commands)) (taken commands) ∧
      header.numCommands + strips commands = commands.length ∧
      header.commandsSize + taken commands = totalSize commands := by
  have start : At base 0 [] commands
      ⟨memory, commands.length, totalSize commands, base, totalSize commands⟩ :=
    ⟨holds_nil, holds, rfl, (zero_add _).symm, Nat.le_refl _, bounded, Nat.le_refl _, bounded⟩
  obtain ⟨⟨walked, place⟩, number, size⟩ := stripFrom_run start
  rw [nil_append] at walked place
  refine ⟨_, rfl, ?_⟩
  rw [internalStripLoadCommands]
  generalize stripFrom 0 _ = stripped at walked place number size ⊢
  dsimp only at number size ⊢
  have filled : (totalSize commands + u32 - stripped.commandsSize) % u32 = taken commands := by
    rw [sub_u32 (by omega) bounded]
    omega
  rw [filled, place]
  refine ⟨walked.zero_frame (Or.inl ?_), ?_, number, size⟩
  · rw [length_allBytes]
  · intro address lower upper
    rw [zeroMem, if_pos ⟨lower, upper⟩]

theorem not_zeroed {address length : Nat} {command : LoadCommand}
    (holds : Holds memory address command.bytes) (strippable : Strippable command)
    (covered : command.size ≤ length) : ¬Zeroed memory address length := by
  intro zeroed
  have none : load memory 4 address = load (fun _ => 0) 4 address := by
    apply load_congr
    intro place lower upper
    have within := command.minimal
    rw [LoadCommand.size] at covered
    exact zeroed place lower (by omega)
  have zero : commandType memory address = 0 := none
  rw [Strippable, ← commandType_eq holds, zero] at strippable
  revert strippable
  decide

theorem Stripped.strips {header : Stripping} (stripped : Stripped base commands header)
    (number : header.numCommands + strips commands = commands.length) :
    strips commands = (removed commands).length := by
  have all := (kept_removed commands).1
  rw [stripped.numCommands] at number
  omega

/-- `InternalStripLoadCommands` removes the strippable commands just where each of them is
followed by one that stays and these are of the same size together. -/
theorem internalStripLoadCommands_right (memory : Memory) (base : Nat) (commands : List LoadCommand)
    (holds : Holds memory base (allBytes commands)) (bounded : totalSize commands < u32) :
    Stripped base commands
        (internalStripLoadCommands memory base commands.length (totalSize commands)) ↔
      Separated commands := by
  obtain ⟨header, same, walked, filled, number, size⟩ := internalStripLoadCommands_spec holds bounded
  rw [same]
  obtain ⟨-, parts⟩ := kept_removed commands
  constructor
  · intro stripped
    have apart := (strips_le commands).2 (stripped.strips number)
    rw [passed_apart apart] at walked filled
    cases none : lastStripped commands with
    | nil =>
      have taken := taken_apart apart none
      have sized := stripped.commandsSize
      exact ⟨apart, lastStripped_nil.mp none, by omega⟩
    | cons last others =>
      -- The last command is still in front of the zeros.
      have member : last ∈ lastStripped commands := none ▸ mem_cons_self
      rw [lastStripped, Option.mem_toList] at member
      obtain ⟨isLast, decided⟩ := Option.filter_eq_some_iff.mp member
      have strippable : Strippable last := of_decide_eq_true decided
      have among : last ∈ removed commands :=
        mem_filter.mpr ⟨mem_of_getLast? isLast, decide_eq_true strippable⟩
      have covered := size_le_totalSize among
      rw [none, allBytes_append, holds_append, length_allBytes] at walked
      have stands := (holds_cons.mp walked.2).1
      exact absurd stripped.tail (not_zeroed stands strippable (by omega))
  · rintro ⟨apart, last, sizes⟩
    have none := lastStripped_nil.mpr last
    have taken := taken_apart apart none
    rw [passed_apart apart, none, append_nil] at walked filled
    have all : strips commands = (removed commands).length := strips_apart apart
    have numbers := (kept_removed commands).1
    refine ⟨by omega, by omega, walked, ?_⟩
    rwa [show totalSize commands - totalSize (kept commands) = StripCommands.taken commands by omega]

/-- `LC_FUNCTION_STARTS` and `LC_DATA_IN_CODE`, as a linker writes them next to each other. -/
def functionStarts : LoadCommand :=
  ⟨[38, 0, 0, 0, 16, 0, 0, 0, 0, 64, 0, 0, 8, 0, 0, 0], by decide, by decide⟩

def dataInCode : LoadCommand :=
  ⟨[41, 0, 0, 0, 16, 0, 0, 0, 8, 64, 0, 0, 0, 0, 0, 0], by decide, by decide⟩

theorem internalStripLoadCommands_right_functionStarts :
    Stripped 32 [functionStarts, dataInCode]
        (internalStripLoadCommands (memoryOf 32 (allBytes [functionStarts, dataInCode])) 32
          [functionStarts, dataInCode].length (totalSize [functionStarts, dataInCode])) ↔
      Separated [functionStarts, dataInCode] :=
  internalStripLoadCommands_right _ 32 _ (holds_memoryOf 32 _) (by decide)

/-- The second of two adjacent commands stays. -/
theorem adjacent_stays :
    ¬Stripped 32 [functionStarts, dataInCode]
      (internalStripLoadCommands (memoryOf 32 (allBytes [functionStarts, dataInCode])) 32
        [functionStarts, dataInCode].length (totalSize [functionStarts, dataInCode])) := by
  obtain ⟨header, same, -, -, number, -⟩ :=
    internalStripLoadCommands_spec (holds_memoryOf 32 (allBytes [functionStarts, dataInCode]))
      (by decide)
  rw [same]
  intro stripped
  have wrong := stripped.strips number
  revert wrong
  decide

end Headers

end OpenCore.StrippedCommands
