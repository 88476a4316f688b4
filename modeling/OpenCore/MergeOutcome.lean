import Mathlib.Data.List.TakeWhile
import Mathlib.Data.Nat.ModEq
import OpenCore.MergedSegments

/-!
What a merge is meant to leave of a header, and the headers for which it does. A merge that
succeeds takes the segments behind the first one to be bare, keeps what is moved as far as
zeros do not matter, and takes the first and the last segment for the ends of them all. One
that fails has already written to the first segment if others were merged before.
-/

namespace OpenCore.MergeOutcome

open Base AddressSpace PlacedBytes MachoHeader LoadCommands MergeSegments MergedSegments List

section Meaning
variable (arch : MachX) (namePrefix : List UInt8)

instance (command : LoadCommand) : Decidable (Prefixed arch namePrefix command) :=
  inferInstanceAs (Decidable (_ ∧ _))

def before (commands : List LoadCommand) : List LoadCommand :=
  commands.takeWhile fun command => ¬Prefixed arch namePrefix command

def run (commands : List LoadCommand) : List LoadCommand :=
  (commands.dropWhile fun command => ¬Prefixed arch namePrefix command).takeWhile fun command =>
    Prefixed arch namePrefix command

def after (commands : List LoadCommand) : List LoadCommand :=
  (commands.dropWhile fun command => ¬Prefixed arch namePrefix command).dropWhile fun command =>
    Prefixed arch namePrefix command

structure Stands (base : Nat) (commands : List LoadCommand) (header : Header) : Prop where
  numCommands : header.numCommands = commands.length
  commandsSize : header.commandsSize = totalSize commands
  holds : Holds header.memory base (allBytes commands)

/-- A range that begins at the first field and is as long as the second one says. -/
def InRange (start extent : SegmentField) (segment : LoadCommand) (address : Nat) : Prop :=
  get arch start segment ≤ address ∧ address < get arch start segment + get arch extent segment

def IsUnion (start extent : SegmentField) (merged : LoadCommand) (segments : List LoadCommand) : Prop :=
  ∀ address, InRange arch start extent merged address ↔
    ∃ segment ∈ segments, InRange arch start extent segment address

def Meant (base : Nat) (commands : List LoadCommand) (outcome : Bool × Header) : Prop :=
  (outcome.1 = true → ∃ merged : LoadCommand,
    merged.type = machLoadCommandSegment arch ∧
      IsUnion arch .virtualAddress .size merged (run arch namePrefix commands) ∧
      IsUnion arch .fileOffset .fileSize merged (run arch namePrefix commands) ∧
      Stands base (before arch namePrefix commands ++ merged :: after arch namePrefix commands)
        outcome.2) ∧
  (outcome.1 = false → Stands base commands outcome.2)

/-- The ranges of some segments are together one range, from where the first begins to where
the last ends. -/
def OneRange (start extent : SegmentField) (first last : LoadCommand) (segments : List LoadCommand) :
    Prop :=
  ∃ stop, get arch start first ≤ stop ∧ stop < get arch start first + uintX arch ∧
    stop % uintX arch = (get arch start last + get arch extent last) % uintX arch ∧
    ∀ address, (get arch start first ≤ address ∧ address < stop) ↔
      ∃ segment ∈ segments, InRange arch start extent segment address

structure Includes (first : LoadCommand) (segments : List LoadCommand) : Prop where
  ends : ∀ last, segments.getLast? = some last →
    (get arch .virtualAddress first + get arch .size first) % uintX arch =
        (get arch .virtualAddress last + get arch .size last) % uintX arch ∧
      (get arch .fileOffset first + get arch .fileSize first) % uintX arch =
        (get arch .fileOffset last + get arch .fileSize last) % uintX arch
  protections : ∀ segment ∈ segments,
    get arch .initialProtection first ||| get arch .initialProtection segment =
        get arch .initialProtection first ∧
      get arch .maximumProtection first ||| get arch .maximumProtection segment =
        get arch .maximumProtection first

structure Mergeable (first : LoadCommand) (segments behind : List LoadCommand) : Prop where
  bare : (∀ segment ∈ first :: segments, Supported arch segment) →
    ∀ segment ∈ segments, segment.size = segmentCommandSize arch
  zeros : (∀ segment ∈ first :: segments, Supported arch segment) → segments ≠ [] →
    ∀ byte ∈ (allBytes behind).drop (totalSize segments), byte = 0
  ranges : (∀ segment ∈ first :: segments, Supported arch segment) →
    ∀ last, segments.getLast? = some last →
      OneRange arch .virtualAddress .size first last (first :: segments) ∧
        OneRange arch .fileOffset .fileSize first last (first :: segments)
  undone : Supported arch first → ¬(∀ segment ∈ segments, Supported arch segment) →
    Includes arch first (supportedOnes arch segments)

end Meaning

section Parts
variable {arch : MachX} {namePrefix : List UInt8} {commands : List LoadCommand}

theorem parts (commands : List LoadCommand) :
    commands = before arch namePrefix commands ++
      (run arch namePrefix commands ++ after arch namePrefix commands) := by
  rw [run, after, takeWhile_append_dropWhile, before, takeWhile_append_dropWhile]

theorem before_unrelated : ∀ command ∈ before arch namePrefix commands,
    ¬Prefixed arch namePrefix command := by
  intro command member
  have passed := mem_takeWhile_imp member
  exact of_decide_eq_true passed

theorem run_prefixed : ∀ command ∈ run arch namePrefix commands,
    Prefixed arch namePrefix command := by
  intro command member
  have passed := mem_takeWhile_imp member
  exact of_decide_eq_true passed

theorem after_unrelated : ∀ command, (after arch namePrefix commands).head? = some command →
    ¬Prefixed arch namePrefix command := by
  intro command isHead
  have stopped := head?_dropWhile_not (fun command => Prefixed arch namePrefix command)
    (commands.dropWhile fun command => ¬Prefixed arch namePrefix command)
  rw [after] at isHead
  rw [isHead] at stopped
  exact of_decide_eq_false stopped

theorem run_nil (none : run arch namePrefix commands = []) :
    before arch namePrefix commands = commands := by
  have rest : commands.dropWhile (fun command => ¬Prefixed arch namePrefix command) = [] := by
    cases found : commands.dropWhile fun command => ¬Prefixed arch namePrefix command with
    | nil => rfl
    | cons command others =>
      have stopped := head?_dropWhile_not (fun command => ¬Prefixed arch namePrefix command)
        commands
      rw [found] at stopped
      have prefixed : Prefixed arch namePrefix command := not_not.mp (of_decide_eq_false stopped)
      rw [run, found, takeWhile_cons, if_pos (decide_eq_true prefixed)] at none
      cases none
  have whole := @parts arch namePrefix commands
  rw [none, nil_append, after, rest, dropWhile_nil, append_nil] at whole
  exact whole.symm

structure Split (arch : MachX) (namePrefix : List UInt8) (commands : List LoadCommand)
    (first : LoadCommand) (segments : List LoadCommand) : Prop where
  split : commands = before arch namePrefix commands ++
    first :: (segments ++ after arch namePrefix commands)
  numbers : commands.length = (before arch namePrefix commands).length +
    (segments.length + (after arch namePrefix commands).length + 1)
  totals : totalSize commands = totalSize (before arch namePrefix commands) + first.size +
    totalSize segments + totalSize (after arch namePrefix commands)
  prefixed : ∀ segment ∈ first :: segments, Prefixed arch namePrefix segment
  sized : ∀ segment ∈ first :: segments, SegmentSized arch segment

theorem split_of_run {first : LoadCommand} {segments : List LoadCommand}
    (sized : AllSized arch commands) (found : run arch namePrefix commands = first :: segments) :
    Split arch namePrefix commands first segments := by
  have split := @parts arch namePrefix commands
  have prefixed := @run_prefixed arch namePrefix commands
  rw [found] at split prefixed
  have lengths := congrArg List.length split
  have sizes := congrArg totalSize split
  rw [length_append, length_append, length_cons] at lengths
  rw [totalSize_append, totalSize_append, totalSize_cons] at sizes
  refine ⟨split, by omega, by omega, prefixed, fun segment member => ?_⟩
  have among : segment ∈ commands := by
    rw [split]
    exact mem_append_right _ (mem_append_left _ member)
  exact sized segment among (prefixed segment member).1

end Parts

section Outcomes
variable {arch : MachX} {namePrefix : List UInt8} {memory : Memory} {base : Nat}
  {commands segments : List LoadCommand} {first : LoadCommand}

theorem mergeFrom_first {loadCommand left : Nat} (holds : Holds memory loadCommand first.bytes)
    (short : namePrefix.length ≤ 16) (sized : SegmentSized arch first)
    (prefixed : Prefixed arch namePrefix first) :
    mergeFrom arch namePrefix (left + 1) memory ⟨loadCommand, none, 0⟩ =
      if Supported arch first then
        mergeFrom arch namePrefix left memory ⟨loadCommand + first.size, some loadCommand, 0⟩
      else (memory, none) := by
  have goesOn := mt (skipped_iff holds short fun _ => sized).mp (not_not_intro prefixed)
  rw [mergeFrom, if_neg goesOn, readField_eq holds sized, readField_eq holds sized]
  by_cases supported : Supported arch first
  · have same : get arch .size first = get arch .fileSize first := supported
    rw [if_neg (not_not_intro same), if_pos supported]
    dsimp only
    rw [nextLoadCommand, commandSize_eq holds]
  · have differ : get arch .size first ≠ get arch .fileSize first := supported
    rw [if_pos differ, if_neg supported]

section

variable (holds : Holds memory base (allBytes commands)) (short : namePrefix.length ≤ 16)
  (sized : AllSized arch commands)
include holds short sized

theorem outcome_none (none : run arch namePrefix commands = []) :
    internalMachoMergeSegments arch namePrefix base
        ⟨memory, commands.length, totalSize commands⟩ =
      (false, ⟨memory, commands.length, totalSize commands⟩) := by
  have unrelated : ∀ command ∈ commands, ¬Prefixed arch namePrefix command := by
    have all := @before_unrelated arch namePrefix commands
    rwa [run_nil none] at all
  have through := @mergeFrom_before arch namePrefix memory commands base 0 holds short sized unrelated
  rw [add_zero] at through
  rw [internalMachoMergeSegments, through]
  rfl

theorem outcome_some (found : run arch namePrefix commands = first :: segments) :
    ∃ last, (Supported arch first → Absorbed arch memory
          (base + totalSize (before arch namePrefix commands))
          (absorbAll arch first (supportedOnes arch segments)) last) ∧
      (¬Supported arch first → last = memory) ∧ internalMachoMergeSegments arch namePrefix base
          ⟨memory, commands.length, totalSize commands⟩ =
        if (∀ segment ∈ first :: segments, Supported arch segment) ∧ segments ≠ [] then
          (true, ⟨zeroMem
              (copyMem last (base + totalSize (before arch namePrefix commands) + first.size)
                (base + totalSize (before arch namePrefix commands) + first.size + totalSize segments)
                (totalSize (after arch namePrefix commands)))
              (base + totalSize (before arch namePrefix commands) + first.size + totalSize segments)
              (totalSize (after arch namePrefix commands)), commands.length - segments.length,
            (totalSize commands + u32 - segmentCommandSize arch * segments.length % u32) % u32⟩)
        else (false, ⟨last, commands.length, totalSize commands⟩) := by
  obtain ⟨split, numbers, totals, prefixed, segmentSized⟩ := split_of_run sized found
  have stands := holds
  rw [split, allBytes_append, holds_append, length_allBytes] at stands
  obtain ⟨here, others⟩ := holds_cons.mp stands.2
  have member : ∀ command ∈ before arch namePrefix commands ++
      (first :: (segments ++ after arch namePrefix commands)), command ∈ commands :=
    fun command inside => split ▸ inside
  have firstSized := segmentSized first mem_cons_self
  have through : mergeFrom arch namePrefix commands.length memory ⟨base, none, 0⟩ =
      if Supported arch first then
        mergeFrom arch namePrefix (segments.length + (after arch namePrefix commands).length) memory
          ⟨base + totalSize (before arch namePrefix commands) + first.size,
            some (base + totalSize (before arch namePrefix commands)), 0⟩
      else (memory, none) := by
    rw [numbers, mergeFrom_before stands.1 short (fun command inside => sized command
      (member command (mem_append_left _ inside))) before_unrelated]
    exact mergeFrom_first here short firstSized (prefixed first mem_cons_self)
  by_cases supported : Supported arch first
  · have start : Absorbed arch memory (base + totalSize (before arch namePrefix commands)) first
        memory := ⟨here, firstSized, fun _ _ => rfl⟩
    obtain ⟨last, absorbed, ran⟩ := @mergeFrom_run arch namePrefix memory memory first segments
      (after arch namePrefix commands) _ _ 0 start (le_refl _) others short
      (fun command inside => sized command
        (member command (mem_append_right _ (mem_cons_of_mem _ inside))))
      (fun command inside => prefixed command (mem_cons_of_mem _ inside)) after_unrelated
    rw [if_pos supported, ran] at through
    refine ⟨last, fun _ => absorbed, fun unsupported => absurd supported unsupported, ?_⟩
    rw [internalMachoMergeSegments, through]
    by_cases all : ∀ segment ∈ segments, Supported arch segment
    · rw [if_pos all]
      dsimp only
      by_cases alone : segments = []
      · rw [if_pos (by rw [alone]; rfl), if_neg fun both => both.2 alone]
      · have several : 0 + segments.length ≠ 0 := by
          rw [zero_add]
          exact fun none => alone (length_eq_zero_iff.mp none)
        have both : (∀ segment ∈ first :: segments, Supported arch segment) ∧ segments ≠ [] :=
          ⟨forall_mem_cons.mpr ⟨supported, all⟩, alone⟩
        have area : totalSize commands - (base + totalSize (before arch namePrefix commands) +
            first.size + totalSize segments - base) =
              totalSize (after arch namePrefix commands) := by omega
        rw [if_neg several, if_pos both, area, commandSize_eq absorbed.holds, absorbAll_size,
          zero_add]
    · rw [if_neg all, if_neg fun both => all fun segment inside =>
        both.1 segment (mem_cons_of_mem _ inside)]
  · rw [if_neg supported] at through
    refine ⟨memory, fun wrong => absurd wrong supported, fun _ => rfl, ?_⟩
    rw [internalMachoMergeSegments, through,
      if_neg fun both => supported (both.1 first mem_cons_self)]

end

theorem distance_mod {first place extent value : Nat} (bounded : first ≤ uintX arch) :
    distance arch first place extent % uintX arch = value % uintX arch ↔
      (first + value) % uintX arch = (place + extent) % uintX arch := by
  have whole : distance arch first place extent + first = place + extent + uintX arch := by
    rw [distance]
    omega
  have both : distance arch first place extent ≡ value [MOD uintX arch] ↔
      distance arch first place extent + first ≡ value + first [MOD uintX arch] :=
    ⟨Nat.ModEq.add_right first, Nat.ModEq.add_right_cancel' first⟩
  rw [Nat.ModEq, Nat.ModEq, whole, Nat.add_mod_right, add_comm value] at both
  exact both.trans eq_comm

theorem isUnion_iff {start extent : SegmentField} {merged last : LoadCommand}
    {members : List LoadCommand} (same : get arch start merged = get arch start first)
    (bounded : get arch start first ≤ uintX arch)
    (size : get arch extent merged = distance arch (get arch start first) (get arch start last)
      (get arch extent last) % uintX arch) :
    IsUnion arch start extent merged members ↔ OneRange arch start extent first last members := by
  have positive : 0 < uintX arch := Nat.pow_pos (by decide)
  have ends := (distance_mod bounded).mp (size.symm.trans (Nat.mod_eq_of_lt
    (size ▸ Nat.mod_lt _ positive)).symm)
  have short : get arch extent merged < uintX arch := size ▸ Nat.mod_lt _ positive
  constructor
  · intro union
    refine ⟨get arch start first + get arch extent merged, Nat.le_add_right _ _,
      Nat.add_lt_add_left short _, ends, fun address => ?_⟩
    rw [← union address, InRange, same]
  · rintro ⟨stop, lower, upper, stops, members⟩ address
    have value : get arch extent merged = stop - get arch start first := by
      rw [← Nat.add_sub_cancel' lower] at stops
      rw [size, (distance_mod bounded).mpr stops]
      exact Nat.mod_eq_of_lt (by omega)
    rw [← members address, InRange, same, value, Nat.add_sub_cancel' lower]

end Outcomes

section Results
variable {arch : MachX} {namePrefix : List UInt8} {memory last : Memory} {base : Nat}
  {commands front segments behind : List LoadCommand} {first changed : LoadCommand}

theorem get_le {start : SegmentField} (unit : start.width arch = arch.uintSize) :
    get arch start first ≤ uintX arch := by
  have bound := @get_lt arch start first
  rw [unit] at bound
  exact le_of_lt bound

theorem includes_iff (sized : SegmentSized arch first) :
    absorbAll arch first segments = first ↔ Includes arch first segments := by
  have extents : ∀ {last : LoadCommand} {start extent : SegmentField},
      start.width arch = arch.uintSize → extent.width arch = arch.uintSize →
      (distance arch (get arch start first) (get arch start last) (get arch extent last) %
          uintX arch = get arch extent first ↔
        (get arch start first + get arch extent first) % uintX arch =
          (get arch start last + get arch extent last) % uintX arch) := by
    intro last start extent startUnit unit
    have bound := @get_lt arch extent first
    rw [unit, ← uintX] at bound
    rw [← distance_mod (get_le startUnit), Nat.mod_eq_of_lt bound]
  constructor
  · intro same
    constructor
    · intro last isLast
      obtain ⟨others, rfl⟩ := getLast?_eq_some_iff.mp isLast
      have size := @absorbAll_extent arch first last others sized
      have fileSize := @absorbAll_fileSize arch first last others sized
      rw [same] at size fileSize
      exact ⟨(extents rfl rfl).mp size.symm, (extents rfl rfl).mp fileSize.symm⟩
    · intro segment member
      have initial := (absorbAll_protection absorb_initialProtection sized).mp
        (congrArg (get arch .initialProtection) same)
      have maximum := (absorbAll_protection absorb_maximumProtection sized).mp
        (congrArg (get arch .maximumProtection) same)
      exact ⟨initial segment member, maximum segment member⟩
  · rintro ⟨ends, protections⟩
    rcases eq_nil_or_concat segments with rfl | ⟨others, last, rfl⟩
    · rfl
    · rw [concat_eq_append] at ends protections ⊢
      have isLast : (others ++ [last]).getLast? = some last := getLast?_concat
      obtain ⟨size, fileSize⟩ := ends last isLast
      refine @eq_of_fields arch _ _ (absorbAll_size _ _) ?_ fun index bound outside =>
        absorbAll_outside (by rwa [← LoadCommand.size, absorbAll_size] at bound) outside
      intro part
      cases part with
      | virtualAddress => exact absorbAll_virtualAddress sized
      | fileOffset => exact absorbAll_fileOffset sized
      | size => exact (absorbAll_extent sized).trans ((extents rfl rfl).mpr size)
      | fileSize => exact (absorbAll_fileSize sized).trans ((extents rfl rfl).mpr fileSize)
      | initialProtection =>
        exact (absorbAll_protection absorb_initialProtection sized).mpr fun segment member =>
          (protections segment member).1
      | maximumProtection =>
        exact (absorbAll_protection absorb_maximumProtection sized).mpr fun segment member =>
          (protections segment member).2

theorem absorbed_holds (holds : Holds memory base (allBytes (front ++ first :: behind)))
    (absorbed : Absorbed arch memory (base + totalSize front) changed last)
    (size : changed.size = first.size) :
    Holds last base (allBytes (front ++ changed :: behind)) := by
  rw [allBytes_append, holds_append, length_allBytes, holds_cons] at holds ⊢
  obtain ⟨ahead, -, others⟩ := holds
  refine ⟨ahead.congr fun place lower upper => absorbed.frame place (Or.inl ?_), absorbed.holds, ?_⟩
  · rwa [length_allBytes] at upper
  · rw [size]
    exact others.congr fun place lower _ => absorbed.frame place (Or.inr (by omega))

theorem bare_iff (sized : ∀ segment ∈ segments, SegmentSized arch segment) :
    segmentCommandSize arch * segments.length ≤ totalSize segments ∧
      (totalSize segments = segmentCommandSize arch * segments.length ↔
        ∀ segment ∈ segments, segment.size = segmentCommandSize arch) := by
  induction segments with
  | nil => exact ⟨le_refl _, by simp⟩
  | cons segment rest ih =>
    obtain ⟨enough, bare⟩ := ih fun other member => sized other (mem_cons_of_mem _ member)
    have least : segmentCommandSize arch ≤ segment.size := sized segment mem_cons_self
    rw [length_cons, Nat.mul_succ, totalSize_cons, forall_mem_cons, ← bare]
    omega

/-- The commands stand as they are meant to after a merge if the segments behind the first
one were bare and nothing is lost under the zeros. -/
theorem merged_stands (holds : Holds memory base (allBytes (front ++ first :: (segments ++ behind))))
    (absorbed : Absorbed arch memory (base + totalSize front) changed last)
    (size : changed.size = first.size) {number total : Nat}
    (numbers : number = front.length + (segments.length + behind.length + 1))
    (totals : total = totalSize front + first.size + totalSize segments + totalSize behind)
    (bounded : total < u32) (sized : ∀ segment ∈ segments, SegmentSized arch segment) :
    Stands base (front ++ changed :: behind)
        ⟨zeroMem
          (copyMem last (base + totalSize front + first.size)
            (base + totalSize front + first.size + totalSize segments) (totalSize behind))
          (base + totalSize front + first.size + totalSize segments) (totalSize behind),
          number - segments.length,
          (total + u32 - segmentCommandSize arch * segments.length % u32) % u32⟩ ↔
      (∀ segment ∈ segments, segment.size = segmentCommandSize arch) ∧
        ∀ byte ∈ (allBytes behind).drop (totalSize segments), byte = 0 := by
  obtain ⟨enough, bare⟩ := bare_iff sized
  have moved := absorbed_holds holds absorbed size
  rw [allBytes_append, holds_append, length_allBytes, holds_cons, allBytes_append, holds_append,
    length_allBytes, size] at moved
  obtain ⟨ahead, here, -, others⟩ := moved
  have kept := moved_zeroed_iff others
    (Nat.le_add_right (base + totalSize front + first.size) (totalSize segments))
  rw [length_allBytes, Nat.add_sub_cancel_left] at kept
  have taken : (total + u32 - segmentCommandSize arch * segments.length % u32) % u32 =
      total - segmentCommandSize arch * segments.length := by
    have small : segmentCommandSize arch * segments.length ≤ total := by omega
    rw [Nat.mod_eq_of_lt (lt_of_le_of_lt small bounded), sub_u32 small bounded]
  have outcome : Holds
      (zeroMem
        (copyMem last (base + totalSize front + first.size)
          (base + totalSize front + first.size + totalSize segments) (totalSize behind))
        (base + totalSize front + first.size + totalSize segments) (totalSize behind))
      base (allBytes (front ++ changed :: behind)) ↔
      ∀ byte ∈ (allBytes behind).drop (totalSize segments), byte = 0 := by
    rw [allBytes_append, holds_append, length_allBytes, holds_cons, size, ← kept]
    have sizes : changed.bytes.length = first.size := size
    refine ⟨fun whole => whole.2.2, fun rest => ⟨?_, ?_, rest⟩⟩
    · apply (ahead.copy_frame _).zero_frame
      · exact Or.inl (by rw [length_allBytes]; omega)
      · exact Or.inl (by rw [length_allBytes]; omega)
    · apply (here.copy_frame _).zero_frame
      · exact Or.inl (by rw [sizes]; omega)
      · exact Or.inl (by rw [sizes])
  constructor
  · rintro ⟨-, sizes, stands⟩
    dsimp only at sizes stands
    rw [taken, totalSize_append, totalSize_cons, size] at sizes
    exact ⟨bare.mp (by omega), outcome.mp stands⟩
  · rintro ⟨all, zeros⟩
    have exact := bare.mpr all
    refine ⟨?_, ?_, outcome.mpr zeros⟩
    · dsimp only
      rw [length_append, length_cons, numbers]
      omega
    · dsimp only
      rw [taken, totalSize_append, totalSize_cons, size]
      omega

variable {ending : LoadCommand}

theorem meant_merged (holds : Holds memory base (allBytes commands))
    (bounded : totalSize commands < u32)
    (split : Split arch namePrefix commands first (front ++ [ending]))
    (found : run arch namePrefix commands = first :: (front ++ [ending]))
    (supported : ∀ segment ∈ first :: (front ++ [ending]), Supported arch segment)
    (absorbed : Absorbed arch memory (base + totalSize (before arch namePrefix commands))
      (absorbAll arch first (front ++ [ending])) last)
    {header : Header} (outcome : header = ⟨zeroMem
      (copyMem last (base + totalSize (before arch namePrefix commands) + first.size)
        (base + totalSize (before arch namePrefix commands) + first.size +
          totalSize (front ++ [ending])) (totalSize (after arch namePrefix commands)))
      (base + totalSize (before arch namePrefix commands) + first.size +
        totalSize (front ++ [ending])) (totalSize (after arch namePrefix commands)),
      commands.length - (front ++ [ending]).length,
      (totalSize commands + u32 - segmentCommandSize arch * (front ++ [ending]).length % u32) %
        u32⟩) :
    Meant arch namePrefix base commands (true, header) ↔
      Mergeable arch first (front ++ [ending]) (after arch namePrefix commands) := by
  have sized := split.sized first mem_cons_self
  have size : (absorbAll arch first (front ++ [ending])).bytes.length = first.size :=
    absorbAll_size _ _
  have isLast : (front ++ [ending]).getLast? = some ending := getLast?_concat
  have memorySpan := @isUnion_iff arch first .virtualAddress .size
    (absorbAll arch first (front ++ [ending])) ending (first :: (front ++ [ending]))
    (absorbAll_virtualAddress sized) (get_le rfl) (absorbAll_extent sized)
  have fileSpan := @isUnion_iff arch first .fileOffset .fileSize
    (absorbAll arch first (front ++ [ending])) ending (first :: (front ++ [ending]))
    (absorbAll_fileOffset sized) (get_le rfl) (absorbAll_fileSize sized)
  have stands := merged_stands (by rwa [← split.split]) absorbed size split.numbers split.totals
    bounded fun segment member => split.sized segment (mem_cons_of_mem _ member)
  rw [← outcome] at stands
  constructor
  · rintro ⟨success, -⟩
    obtain ⟨merged, -, memoryUnion, fileUnion, stood⟩ := success rfl
    have here : Holds header.memory (base + totalSize (before arch namePrefix commands))
        (absorbAll arch first (front ++ [ending])).bytes := by
      rw [outcome]
      apply (absorbed.holds.copy_frame _).zero_frame
      · exact Or.inl (by rw [size]; omega)
      · exact Or.inl (le_of_eq (by rw [size]))
    have inPlace := stood.holds
    rw [allBytes_append, holds_append, length_allBytes, holds_cons] at inPlace
    have same := command_unique here inPlace.2.1
    rw [found, ← same] at memoryUnion fileUnion
    rw [← same] at stood
    obtain ⟨bare, zeros⟩ := stands.mp stood
    refine ⟨fun _ => bare, fun _ _ => zeros, fun _ other otherLast => ?_, fun _ partly => ?_⟩
    · rw [isLast, Option.some.injEq] at otherLast
      rw [← otherLast]
      exact ⟨memorySpan.mp memoryUnion, fileSpan.mp fileUnion⟩
    · exact absurd (fun segment member => supported segment (mem_cons_of_mem _ member)) partly
  · rintro ⟨bare, zeros, ranges, -⟩
    obtain ⟨memoryRange, fileRange⟩ := ranges supported ending isLast
    refine ⟨fun _ => ⟨absorbAll arch first (front ++ [ending]), ?_, ?_, ?_, ?_⟩,
      fun wrong => absurd wrong.symm Bool.false_ne_true⟩
    · rw [absorbAll_type]
      exact (split.prefixed first mem_cons_self).1
    · rw [found]
      exact memorySpan.mpr memoryRange
    · rw [found]
      exact fileSpan.mpr fileRange
    · exact stands.mpr ⟨bare supported, zeros supported (by simp)⟩

theorem meant_failed (holds : Holds memory base (allBytes commands))
    (split : Split arch namePrefix commands first segments)
    (failed : ¬((∀ segment ∈ first :: segments, Supported arch segment) ∧ segments ≠ []))
    (absorbed : Supported arch first →
      Absorbed arch memory (base + totalSize (before arch namePrefix commands))
        (absorbAll arch first (supportedOnes arch segments)) last)
    (untouched : ¬Supported arch first → last = memory) :
    Meant arch namePrefix base commands (false, ⟨last, commands.length, totalSize commands⟩) ↔
      Mergeable arch first segments (after arch namePrefix commands) := by
  have sized := split.sized first mem_cons_self
  have meant : Meant arch namePrefix base commands
      (false, ⟨last, commands.length, totalSize commands⟩) ↔ Holds last base (allBytes commands) :=
    ⟨fun meant => (meant.2 rfl).holds,
      fun stands => ⟨fun wrong => absurd wrong Bool.false_ne_true, fun _ => ⟨rfl, rfl, stands⟩⟩⟩
  have alone : (∀ segment ∈ first :: segments, Supported arch segment) → segments = [] :=
    fun all => not_not.mp fun several => failed ⟨all, several⟩
  have others : (Supported arch first → ¬(∀ segment ∈ segments, Supported arch segment) →
      Includes arch first (supportedOnes arch segments)) →
        Mergeable arch first segments (after arch namePrefix commands) := by
    intro undone
    refine ⟨fun all => ?_, fun all several => absurd (alone all) several, fun all => ?_, undone⟩
    · rw [alone all]
      exact fun _ member => absurd member not_mem_nil
    · rw [alone all]
      exact fun _ none => by cases none
  rw [meant]
  by_cases supported : Supported arch first
  · have changed := absorbed_holds (by rwa [← split.split]) (absorbed supported) (absorbAll_size _ _)
    have unchanged : Holds last base (allBytes commands) ↔
        absorbAll arch first (supportedOnes arch segments) = first := by
      constructor
      · intro stands
        rw [split.split, allBytes_append, holds_append, length_allBytes, holds_cons] at stands
        exact command_unique (absorbed supported).holds stands.2.1
      · intro same
        rwa [same, ← split.split] at changed
    rw [unchanged]
    constructor
    · exact fun same => others fun _ _ => (includes_iff sized).mp same
    · intro mergeable
      by_cases all : ∀ segment ∈ segments, Supported arch segment
      · rw [alone (forall_mem_cons.mpr ⟨supported, all⟩)]
        rfl
      · exact (includes_iff sized).mpr (mergeable.undone supported all)
  · rw [untouched supported]
    exact iff_of_true holds (others fun wrong => absurd wrong supported)

/-- A merge does what it is meant to do just for such headers. -/
theorem internalMachoMergeSegments_right (arch : MachX) (namePrefix : List UInt8) (memory : Memory)
    (base : Nat) (commands : List LoadCommand) (holds : Holds memory base (allBytes commands))
    (bounded : totalSize commands < u32) (short : namePrefix.length ≤ 16)
    (sized : AllSized arch commands) :
    Meant arch namePrefix base commands
        (internalMachoMergeSegments arch namePrefix base
          ⟨memory, commands.length, totalSize commands⟩) ↔
      ∀ first segments, run arch namePrefix commands = first :: segments →
        Mergeable arch first segments (after arch namePrefix commands) := by
  cases found : run arch namePrefix commands with
  | nil =>
    rw [outcome_none holds short sized found]
    refine iff_of_true ⟨fun wrong => absurd wrong Bool.false_ne_true, fun _ => ?_⟩
      fun _ _ wrong => by cases wrong
    exact ⟨rfl, rfl, holds⟩
  | cons first segments =>
    obtain ⟨last, absorbed, untouched, outcome⟩ := outcome_some holds short sized found
    have split := split_of_run sized found
    have only : (∀ other others, first :: segments = other :: others →
        Mergeable arch other others (after arch namePrefix commands)) ↔
          Mergeable arch first segments (after arch namePrefix commands) :=
      ⟨fun all => all _ _ rfl, fun goal other others same => by cases same; exact goal⟩
    rw [only, outcome]
    by_cases merged : (∀ segment ∈ first :: segments, Supported arch segment) ∧ segments ≠ []
    · obtain ⟨all, several⟩ := merged
      have whole : supportedOnes arch segments = segments := by
        apply takeWhile_eq_self_iff.mpr
        exact fun segment member => decide_eq_true (all segment (mem_cons_of_mem _ member))
      have absorbed := absorbed (all first mem_cons_self)
      rw [whole] at absorbed
      rw [if_pos ⟨all, several⟩]
      obtain ⟨front, ending, rfl⟩ := eq_nil_or_concat segments |>.resolve_left several
      rw [concat_eq_append] at split found all absorbed ⊢
      exact meant_merged holds bounded split found all absorbed rfl
    · rw [if_neg merged]
      exact meant_failed holds split merged absorbed untouched

def pageBytes (name : List UInt8) (start : Nat) : List UInt8 :=
  [25, 0, 0, 0, 72, 0, 0, 0] ++ name ++ replicate (16 - name.length) 0 ++
    bytesOf 8 start ++ bytesOf 8 0x1000 ++ bytesOf 8 start ++ bytesOf 8 0x1000 ++
    [7, 0, 0, 0, 7, 0, 0, 0, 0, 0, 0, 0, 0, 0, 0, 0]

def regionPrefix : List UInt8 := [95, 95, 82, 69, 71, 73, 79, 78]

def region0 : LoadCommand :=
  ⟨pageBytes (regionPrefix ++ [48]) 0x1000, by decide, by decide⟩

def region1 : LoadCommand :=
  ⟨pageBytes (regionPrefix ++ [49]) 0x2000, by decide, by decide⟩

def linkEdit : LoadCommand :=
  ⟨pageBytes [95, 95, 76, 73, 78, 75, 69, 68, 73, 84] 0x3000, by decide, by decide⟩

def symtab : LoadCommand :=
  ⟨[2, 0, 0, 0, 24, 0, 0, 0] ++ bytesOf 4 0x3000 ++ bytesOf 4 1 ++ bytesOf 4 0x3010 ++ bytesOf 4 8,
    by decide, by decide⟩

def twoRegions : List LoadCommand := [region0, region1, linkEdit, symtab]

theorem twoRegions_sized : AllSized .mach64 twoRegions := by
  unfold AllSized SegmentSized
  decide

theorem internalMachoMergeSegments_right_twoRegions :
    Meant .mach64 regionPrefix 32 twoRegions
        (internalMachoMergeSegments .mach64 regionPrefix 32
          ⟨memoryOf 32 (allBytes twoRegions), twoRegions.length, totalSize twoRegions⟩) ↔
      ∀ first segments, run .mach64 regionPrefix twoRegions = first :: segments →
        Mergeable .mach64 first segments (after .mach64 regionPrefix twoRegions) :=
  internalMachoMergeSegments_right .mach64 regionPrefix _ 32 twoRegions (holds_memoryOf 32 _)
    (by decide) (by decide) twoRegions_sized

/-- The symbol table's command is lost when they are merged. -/
theorem twoRegions_lost :
    ¬Meant .mach64 regionPrefix 32 twoRegions
      (internalMachoMergeSegments .mach64 regionPrefix 32
        ⟨memoryOf 32 (allBytes twoRegions), twoRegions.length, totalSize twoRegions⟩) := by
  have found : run .mach64 regionPrefix twoRegions = region0 :: ([] ++ [region1]) := by
    decide
  have supported : ∀ segment ∈ region0 :: ([] ++ [region1]), Supported .mach64 segment := by
    decide
  have holds := holds_memoryOf 32 (allBytes twoRegions)
  obtain ⟨last, absorbed, -, outcome⟩ :=
    outcome_some holds (by decide) twoRegions_sized found
  rw [outcome, if_pos ⟨supported, by simp⟩, meant_merged holds (by decide)
    (split_of_run twoRegions_sized found) found supported
    (absorbed (supported region0 mem_cons_self)) rfl]
  intro mergeable
  have zeros := mergeable.zeros supported (by simp)
  revert zeros
  decide

end Results

end OpenCore.MergeOutcome
