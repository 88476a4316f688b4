import OpenCore.MergeSegments

/-!
When merging the segments of a header leaves the commands it is meant to leave. What the
loop does to the first segment is followed on the command itself; where the commands are
moved, the fill behind them reaches into what was moved, and a merge that fails does not
take back what was written before.
-/

namespace OpenCore.MergedSegments

open AddressSpace PlacedBytes MachoHeader LoadCommands MergeSegments List

section Fields
variable (arch : MachX)

def get (part : SegmentField) (command : LoadCommand) : Nat :=
  field command.bytes (part.width arch) (part.offset arch)

def SegmentSized (command : LoadCommand) : Prop := segmentCommandSize arch ≤ command.size

theorem offset_le (part : SegmentField) : 24 ≤ part.offset arch := by
  cases arch <;> cases part <;> decide

theorem within_segment (part : SegmentField) :
    part.offset arch + part.width arch ≤ segmentCommandSize arch := by
  cases arch <;> cases part <;> decide

theorem fields_apart {part other : SegmentField} (different : part ≠ other) :
    part.offset arch + part.width arch ≤ other.offset arch ∨
      other.offset arch + other.width arch ≤ part.offset arch := by
  cases arch <;> cases part <;> cases other <;> first | exact absurd rfl different | decide

def put (part : SegmentField) (value : Nat) (command : LoadCommand) : LoadCommand where
  bytes := setField command.bytes (part.width arch) (part.offset arch) value
  minimal := by
    rw [length_setField]
    exact command.minimal
  sized := by
    have inside : 4 + 4 ≤ command.bytes.length := command.minimal
    have behind := offset_le arch part
    rw [length_setField, field_setField_apart inside (Or.inl (by omega))]
    exact command.sized

variable {arch} {part other : SegmentField} {value : Nat} {command : LoadCommand}

@[simp] theorem put_size : (put arch part value command).size = command.size := length_setField _ _ _ _

theorem put_sized :
    SegmentSized arch (put arch part value command) ↔ SegmentSized arch command := by
  rw [SegmentSized, put_size, SegmentSized]

theorem put_type : (put arch part value command).type = command.type := by
  have inside : 0 + 4 ≤ command.bytes.length := le_trans (by decide) command.minimal
  have behind := offset_le arch part
  exact field_setField_apart inside (Or.inl (by omega))

theorem get_put (sized : SegmentSized arch command) :
    get arch part (put arch part value command) = value % 256 ^ part.width arch :=
  field_setField (le_trans (within_segment arch part) sized)

theorem get_put_other (sized : SegmentSized arch command) (different : other ≠ part) :
    get arch other (put arch part value command) = get arch other command :=
  field_setField_apart (le_trans (within_segment arch other) sized) (fields_apart arch different)

theorem get_lt (part : SegmentField) (command : LoadCommand) :
    get arch part command < 256 ^ part.width arch := load_lt _ _ _

variable {memory : Memory} {place : Nat}

theorem readField_eq (holds : Holds memory place command.bytes) (sized : SegmentSized arch command) :
    readField arch memory place part = get arch part command :=
  holds.load (le_trans (within_segment arch part) sized)

theorem writeField_frame (sized : SegmentSized arch command) {address : Nat}
    (outside : address < place ∨ place + command.size ≤ address) :
    writeField arch memory place part value address = memory address := by
  have within := within_segment arch part
  rw [SegmentSized] at sized
  rw [writeField, store, if_neg (by omega)]

end Fields

section Absorbing
variable (arch : MachX)

def absorb (first segment : LoadCommand) : LoadCommand :=
  put arch .maximumProtection
    (get arch .maximumProtection first ||| get arch .maximumProtection segment)
    (put arch .initialProtection
      (get arch .initialProtection first ||| get arch .initialProtection segment)
      (put arch .fileSize
        (distance arch (get arch .fileOffset first) (get arch .fileOffset segment)
          (get arch .fileSize segment))
        (put arch .size
          (distance arch (get arch .virtualAddress first) (get arch .virtualAddress segment)
            (get arch .size segment)) first)))

variable {arch} {first segment : LoadCommand} {memory : Memory} {firstSegment place : Nat}

@[simp] theorem absorb_size : (absorb arch first segment).size = first.size := by
  simp [absorb]

@[simp] theorem absorb_type : (absorb arch first segment).type = first.type := by
  simp [absorb, put_type]

section

variable (sized : SegmentSized arch first)
include sized

theorem absorb_sized :
    SegmentSized arch (absorb arch first segment) := by
  rwa [SegmentSized, absorb_size]

theorem absorb_virtualAddress :
    get arch .virtualAddress (absorb arch first segment) = get arch .virtualAddress first := by
  simp [absorb, get_put_other, put_sized, sized]

theorem absorb_fileOffset :
    get arch .fileOffset (absorb arch first segment) = get arch .fileOffset first := by
  simp [absorb, get_put_other, put_sized, sized]

theorem absorb_extent :
    get arch .size (absorb arch first segment) =
      distance arch (get arch .virtualAddress first) (get arch .virtualAddress segment)
        (get arch .size segment) % uintX arch := by
  simp [absorb, get_put, get_put_other, put_sized, sized, uintX, SegmentField.width]

theorem absorb_fileSize :
    get arch .fileSize (absorb arch first segment) =
      distance arch (get arch .fileOffset first) (get arch .fileOffset segment)
        (get arch .fileSize segment) % uintX arch := by
  simp [absorb, get_put, get_put_other, put_sized, sized, uintX, SegmentField.width]

end

theorem or_mod (part : SegmentField) (four : part.width arch = 4) :
    (get arch part first ||| get arch part segment) % 256 ^ part.width arch =
      get arch part first ||| get arch part segment := by
  have left := @get_lt arch part first
  have right := @get_lt arch part segment
  rw [four] at left right ⊢
  rw [show 256 ^ 4 = 2 ^ 32 by decide] at left right ⊢
  exact Nat.mod_eq_of_lt (Nat.or_lt_two_pow left right)

theorem absorb_initialProtection (sized : SegmentSized arch first) :
    get arch .initialProtection (absorb arch first segment) =
      (get arch .initialProtection first ||| get arch .initialProtection segment) := by
  rw [← or_mod .initialProtection rfl]
  simp [absorb, get_put, get_put_other, put_sized, sized]

theorem absorb_maximumProtection (sized : SegmentSized arch first) :
    get arch .maximumProtection (absorb arch first segment) =
      (get arch .maximumProtection first ||| get arch .maximumProtection segment) := by
  rw [← or_mod .maximumProtection rfl]
  simp [absorb, get_put, put_sized, sized]

structure Beside (arch : MachX) (origin : Memory) (firstSegment place : Nat)
    (first segment : LoadCommand) (memory : Memory) : Prop where
  holdsFirst : Holds memory firstSegment first.bytes
  holdsOther : Holds memory place segment.bytes
  behind : firstSegment + first.size ≤ place
  sized : SegmentSized arch first
  otherSized : SegmentSized arch segment
  frame : ∀ address, address < firstSegment ∨ firstSegment + first.size ≤ address →
    memory address = origin address

variable {origin : Memory}

theorem Beside.write (beside : Beside arch origin firstSegment place first segment memory)
    (part : SegmentField) (value : Nat) :
    Beside arch origin firstSegment place (put arch part value first) segment
      (writeField arch memory firstSegment part value) where
  holdsFirst := beside.holdsFirst.store
  holdsOther := beside.holdsOther.congr fun address lower _ =>
    writeField_frame beside.sized (Or.inr (le_trans beside.behind lower))
  behind := by
    rw [put_size]
    exact beside.behind
  sized := by
    rw [SegmentSized, put_size]
    exact beside.sized
  otherSized := beside.otherSized
  frame := by
    rw [put_size]
    intro address outside
    rw [writeField_frame beside.sized outside, beside.frame address outside]

/-- What `expand` does is what `absorb` says, to the first segment and nothing else. -/
theorem Beside.expand (beside : Beside arch origin firstSegment place first segment memory) :
    Beside arch origin firstSegment place (absorb arch first segment) segment
      (MergeSegments.expand arch memory firstSegment place) := by
  have readFirst : ∀ {first memory} (part : SegmentField),
      Beside arch origin firstSegment place first segment memory →
      readField arch memory firstSegment part = get arch part first :=
    fun _ beside => readField_eq beside.holdsFirst beside.sized
  have readOther : ∀ {first memory} (part : SegmentField),
      Beside arch origin firstSegment place first segment memory →
      readField arch memory place part = get arch part segment :=
    fun _ beside => readField_eq beside.holdsOther beside.otherSized
  have one := beside.write .size
    (distance arch (get arch .virtualAddress first) (get arch .virtualAddress segment)
      (get arch .size segment))
  have two := one.write .fileSize
    (distance arch (get arch .fileOffset first) (get arch .fileOffset segment)
      (get arch .fileSize segment))
  have three := two.write .initialProtection
    (get arch .initialProtection first ||| get arch .initialProtection segment)
  have four := three.write .maximumProtection
    (get arch .maximumProtection first ||| get arch .maximumProtection segment)
  have sizedOne := one.sized
  have sizedTwo := two.sized
  unfold MergeSegments.expand
  dsimp only
  rw [readFirst .virtualAddress beside, readOther .virtualAddress beside, readOther .size beside,
    readFirst .fileOffset one, readOther .fileOffset one, readOther .fileSize one,
    get_put_other beside.sized (by decide), readFirst .initialProtection two,
    readOther .initialProtection two, get_put_other sizedOne (by decide),
    get_put_other beside.sized (by decide), readFirst .maximumProtection three,
    readOther .maximumProtection three, get_put_other sizedTwo (by decide),
    get_put_other sizedOne (by decide), get_put_other beside.sized (by decide)]
  exact four

end Absorbing

section Folds
variable (arch : MachX)

def absorbAll (first : LoadCommand) (segments : List LoadCommand) : LoadCommand :=
  segments.foldl (absorb arch) first

variable {arch} {first last : LoadCommand} {front segments : List LoadCommand}

@[simp] theorem absorbAll_size (first : LoadCommand) (segments : List LoadCommand) :
    (absorbAll arch first segments).size = first.size := by
  induction segments generalizing first with
  | nil => rfl
  | cons segment rest ih => exact (ih _).trans absorb_size

@[simp] theorem absorbAll_type (first : LoadCommand) (segments : List LoadCommand) :
    (absorbAll arch first segments).type = first.type := by
  induction segments generalizing first with
  | nil => rfl
  | cons segment rest ih => exact (ih _).trans absorb_type

theorem absorbAll_sized (sized : SegmentSized arch first) :
    SegmentSized arch (absorbAll arch first segments) := by
  rwa [SegmentSized, absorbAll_size]

theorem absorbAll_concat : absorbAll arch first (front ++ [last]) =
    absorb arch (absorbAll arch first front) last := by
  rw [absorbAll, foldl_append]
  rfl

theorem absorbAll_virtualAddress (sized : SegmentSized arch first) :
    get arch .virtualAddress (absorbAll arch first segments) = get arch .virtualAddress first := by
  induction segments generalizing first with
  | nil => rfl
  | cons segment rest ih => exact (ih (absorb_sized sized)).trans (absorb_virtualAddress sized)

theorem absorbAll_fileOffset (sized : SegmentSized arch first) :
    get arch .fileOffset (absorbAll arch first segments) = get arch .fileOffset first := by
  induction segments generalizing first with
  | nil => rfl
  | cons segment rest ih => exact (ih (absorb_sized sized)).trans (absorb_fileOffset sized)

theorem absorbAll_extent (sized : SegmentSized arch first) :
    get arch .size (absorbAll arch first (front ++ [last])) =
      distance arch (get arch .virtualAddress first) (get arch .virtualAddress last)
        (get arch .size last) % uintX arch := by
  rw [absorbAll_concat, absorb_extent (absorbAll_sized sized), absorbAll_virtualAddress sized]

theorem absorbAll_fileSize (sized : SegmentSized arch first) :
    get arch .fileSize (absorbAll arch first (front ++ [last])) =
      distance arch (get arch .fileOffset first) (get arch .fileOffset last)
        (get arch .fileSize last) % uintX arch := by
  rw [absorbAll_concat, absorb_fileSize (absorbAll_sized sized), absorbAll_fileOffset sized]

theorem foldl_or_held {value other : Nat} (values : List Nat) (held : value ||| other = value) :
    values.foldl (· ||| ·) value ||| other = values.foldl (· ||| ·) value := by
  induction values generalizing value with
  | nil => exact held
  | cons next rest ih =>
    apply ih
    rw [Nat.or_assoc, Nat.or_comm next, ← Nat.or_assoc, held]

theorem foldl_or_eq (values : List Nat) (value : Nat) :
    values.foldl (· ||| ·) value = value ↔ ∀ other ∈ values, value ||| other = value := by
  constructor
  · intro same other member
    have held : values.foldl (· ||| ·) value ||| other = values.foldl (· ||| ·) value := by
      clear same
      induction member generalizing value with
      | head rest => exact foldl_or_held rest (by rw [Nat.or_assoc, Nat.or_self])
      | tail next _ ih => exact ih _
    rwa [same] at held
  · intro held
    induction values with
    | nil => rfl
    | cons next rest ih =>
      rw [foldl_cons, held next mem_cons_self]
      exact ih fun other member => held other (mem_cons_of_mem _ member)

/-- A protection of the first segment holds those of all the others, and is as it was if it
held them before. -/
theorem absorbAll_protection {part : SegmentField}
    (joined : ∀ {first segment : LoadCommand}, SegmentSized arch first →
      get arch part (absorb arch first segment) = (get arch part first ||| get arch part segment))
    (sized : SegmentSized arch first) :
    get arch part (absorbAll arch first segments) = get arch part first ↔
      ∀ segment ∈ segments, get arch part first ||| get arch part segment = get arch part first := by
  have whole : ∀ {first : LoadCommand} (segments : List LoadCommand), SegmentSized arch first →
      get arch part (absorbAll arch first segments) =
        (segments.map (get arch part)).foldl (· ||| ·) (get arch part first) := by
    intro first segments sized
    induction segments generalizing first with
    | nil => rfl
    | cons segment rest ih => exact (ih (absorb_sized sized)).trans (by rw [joined sized]; rfl)
  rw [whole segments sized, foldl_or_eq]
  simp

theorem absorbAll_outside {index : Nat} (bound : index < first.bytes.length)
    (outside : ∀ part : SegmentField,
      index < part.offset arch ∨ part.offset arch + part.width arch ≤ index) :
    (absorbAll arch first segments).bytes.getD index 0 = first.bytes.getD index 0 := by
  have kept : ∀ (part : SegmentField) (value : Nat) (command : LoadCommand),
      index < command.bytes.length →
        (put arch part value command).bytes.getD index 0 = command.bytes.getD index 0 := by
    intro part value command bound
    have apart := outside part
    rw [put, getD_setField bound, store, if_neg (by omega)]
  induction segments generalizing first with
  | nil => rfl
  | cons segment rest ih =>
    have same : (absorb arch first segment).bytes.getD index 0 = first.bytes.getD index 0 := by
      rw [absorb]
      repeat rw [kept _ _ _ (by simpa [put] using bound)]
    exact (ih (by rwa [← LoadCommand.size, absorb_size])).trans same

theorem eq_of_fields {left right : LoadCommand} (sizes : left.size = right.size)
    (fields : ∀ part, get arch part left = get arch part right)
    (others : ∀ index, index < left.bytes.length →
      (∀ part : SegmentField, index < part.offset arch ∨ part.offset arch + part.width arch ≤ index) →
        left.bytes.getD index 0 = right.bytes.getD index 0) : left = right := by
  apply LoadCommand.ext
  apply ext_getElem sizes
  intro index bound other
  rw [← getD_eq_getElem _ 0, ← getD_eq_getElem _ 0]
  by_cases inside : ∃ part : SegmentField,
      part.offset arch ≤ index ∧ index < part.offset arch + part.width arch
  · obtain ⟨part, lower, upper⟩ := inside
    exact load_injective (fields part) index lower upper
  · apply others index bound
    intro part
    by_contra within
    exact inside ⟨part, by omega, by omega⟩

end Folds

section Runs
variable (arch : MachX) (namePrefix : List UInt8)
variable {bytes : List UInt8}

def Prefixed (command : LoadCommand) : Prop :=
  command.type = machLoadCommandSegment arch ∧ namePrefix <+: command.bytes.drop 8

def Supported (segment : LoadCommand) : Prop := get arch .size segment = get arch .fileSize segment

instance (segment : LoadCommand) : Decidable (Supported arch segment) :=
  inferInstanceAs (Decidable (_ = _))

def supportedOnes (segments : List LoadCommand) : List LoadCommand :=
  segments.takeWhile fun segment => Supported arch segment

variable {arch namePrefix} {memory origin : Memory} {command first : LoadCommand}
  {segments after commands : List LoadCommand} {loadCommand firstSegment skipCount left : Nat}

theorem supportedOnes_cons {segment : LoadCommand} (supported : Supported arch segment) :
    supportedOnes arch (segment :: segments) = segment :: supportedOnes arch segments :=
  takeWhile_cons_of_pos (decide_eq_true supported)

theorem supportedOnes_stop {segment : LoadCommand} (differ : ¬Supported arch segment) :
    supportedOnes arch (segment :: segments) = [] :=
  takeWhile_cons_of_neg (by simpa using differ)

theorem beginsWith_iff {place : Nat} (holds : Holds memory place bytes)
    (short : namePrefix.length ≤ bytes.length) :
    beginsWith memory namePrefix place = true ↔ namePrefix <+: bytes := by
  induction namePrefix generalizing bytes place with
  | nil => exact iff_of_true rfl ( nil_prefix)
  | cons ch rest ih =>
    cases bytes with
    | nil => exact absurd short (Nat.not_succ_le_zero _)
    | cons byte bytes =>
      have first : memory place = byte := holds 0 (Nat.succ_pos _)
      have behind : Holds memory (place + 1) bytes := by
        intro index bound
        rw [add_assoc, add_comm 1]
        exact holds (index + 1) (Nat.succ_lt_succ bound)
      rw [beginsWith, Bool.and_eq_true, ih behind (Nat.le_of_succ_le_succ short), first,
        cons_prefix_cons, beq_iff_eq]
      exact and_congr_left fun _ => eq_comm

theorem skipped_iff (holds : Holds memory loadCommand command.bytes)
    (short : namePrefix.length ≤ 16)
    (sized : command.type = machLoadCommandSegment arch → SegmentSized arch command) :
    (commandType memory loadCommand ≠ machLoadCommandSegment arch ∨
      ¬beginsWith memory namePrefix (loadCommand + 8) = true) ↔ ¬Prefixed arch namePrefix command := by
  rw [commandType_eq holds, Prefixed, ← not_and_or]
  refine not_congr (and_congr_right fun isSegment => ?_)
  have enough : 56 ≤ command.bytes.length := le_trans (by cases arch <;> decide) (sized isSegment)
  apply beginsWith_iff
  · intro index bound
    rw [length_drop] at bound
    rw [add_assoc, holds (8 + index) (by omega)]
    simp [getD_eq_getElem?_getD, getElem?_drop]
  · rw [length_drop]
    omega

def AllSized (arch : MachX) (commands : List LoadCommand) : Prop :=
  ∀ command ∈ commands, command.type = machLoadCommandSegment arch → SegmentSized arch command

theorem mergeFrom_before (holds : Holds memory loadCommand (allBytes commands))
    (short : namePrefix.length ≤ 16) (sized : AllSized arch commands)
    (unrelated : ∀ command ∈ commands, ¬Prefixed arch namePrefix command) :
    mergeFrom arch namePrefix (commands.length + left) memory ⟨loadCommand, none, 0⟩ =
      mergeFrom arch namePrefix left memory ⟨loadCommand + totalSize commands, none, 0⟩ := by
  induction commands generalizing loadCommand with
  | nil => rw [length_nil, zero_add, totalSize_nil, add_zero]
  | cons command rest ih =>
    obtain ⟨here, behind⟩ := holds_cons.mp holds
    have other := (skipped_iff here short (sized command mem_cons_self)).mpr
      (unrelated command mem_cons_self)
    have others := ih behind (fun next member => sized next (mem_cons_of_mem _ member))
      fun next member => unrelated next (mem_cons_of_mem _ member)
    rw [length_cons, add_right_comm, mergeFrom, if_pos other]
    dsimp only
    rw [nextLoadCommand, commandSize_eq here, others, totalSize_cons, add_assoc]

theorem mergeFrom_stop (holds : Holds memory loadCommand (allBytes after))
    (short : namePrefix.length ≤ 16) (sized : AllSized arch after)
    (unrelated : ∀ command, after.head? = some command → ¬Prefixed arch namePrefix command) :
    mergeFrom arch namePrefix after.length memory ⟨loadCommand, some firstSegment, skipCount⟩ =
      (memory, some ⟨loadCommand, some firstSegment, skipCount⟩) := by
  cases after with
  | nil => rfl
  | cons command rest =>
    have other := (skipped_iff (holds_cons.mp holds).1 short (sized command mem_cons_self)).mpr
      (unrelated command rfl)
    rw [length_cons, mergeFrom, if_pos other]

/-- The first segment stands where it was, after some others were merged into it, and
nothing else is changed. -/
structure Absorbed (arch : MachX) (origin : Memory) (firstSegment : Nat) (first : LoadCommand)
    (memory : Memory) : Prop where
  holds : Holds memory firstSegment first.bytes
  sized : SegmentSized arch first
  frame : ∀ address, address < firstSegment ∨ firstSegment + first.size ≤ address →
    memory address = origin address

theorem Absorbed.behind (absorbed : Absorbed arch origin firstSegment first memory)
    (holds : Holds origin loadCommand bytes)
    (behind : firstSegment + first.size ≤ loadCommand) : Holds memory loadCommand bytes :=
  holds.congr fun address lower _ => absorbed.frame address (Or.inr (le_trans behind lower))

/-- Behind the first segment the loop merges the segments up to an unsupported one, and
reaches what is behind them if there is none. -/
theorem mergeFrom_run (absorbed : Absorbed arch origin firstSegment first memory)
    (behind : firstSegment + first.size ≤ loadCommand)
    (holds : Holds origin loadCommand (allBytes (segments ++ after)))
    (short : namePrefix.length ≤ 16) (sized : AllSized arch (segments ++ after))
    (prefixed : ∀ segment ∈ segments, Prefixed arch namePrefix segment)
    (unrelated : ∀ command, after.head? = some command → ¬Prefixed arch namePrefix command) :
    ∃ last, Absorbed arch origin firstSegment
        (absorbAll arch first (supportedOnes arch segments)) last ∧
      mergeFrom arch namePrefix (segments.length + after.length) memory
          ⟨loadCommand, some firstSegment, skipCount⟩ = (last,
          if ∀ segment ∈ segments, Supported arch segment then
            some ⟨loadCommand + totalSize segments, some firstSegment, skipCount + segments.length⟩
          else none) := by
  induction segments generalizing first memory loadCommand skipCount with
  | nil =>
    rw [nil_append] at holds sized
    refine ⟨memory, absorbed, ?_⟩
    rw [length_nil, zero_add, mergeFrom_stop (absorbed.behind holds behind) short sized
      unrelated, if_pos fun _ member => absurd member not_mem_nil]
    rfl
  | cons segment rest ih =>
    rw [cons_append] at holds
    obtain ⟨here, others⟩ := holds_cons.mp holds
    have here := absorbed.behind here behind
    have isSegment := prefixed segment mem_cons_self
    have segmentSized := sized segment mem_cons_self isSegment.1
    have goesOn := mt (skipped_iff here short fun _ => segmentSized).mp (not_not_intro isSegment)
    rw [length_cons, add_right_comm, mergeFrom, if_neg goesOn,
      readField_eq here segmentSized, readField_eq here segmentSized]
    by_cases supported : Supported arch segment
    · have beside : Beside arch origin firstSegment loadCommand first segment memory :=
        ⟨absorbed.holds, here, behind, absorbed.sized, segmentSized, absorbed.frame⟩
      have expanded := beside.expand
      have next : Absorbed arch origin firstSegment (absorb arch first segment)
          (expand arch memory firstSegment loadCommand) :=
        ⟨expanded.holdsFirst, expanded.sized, expanded.frame⟩
      obtain ⟨last, kept, ran⟩ : ∃ last,
          Absorbed arch origin firstSegment (absorbAll arch (absorb arch first segment)
            (supportedOnes arch rest)) last ∧ mergeFrom arch namePrefix (rest.length + after.length)
            (expand arch memory firstSegment loadCommand)
            ⟨loadCommand + segment.size, some firstSegment, skipCount + 1⟩ = _ :=
        ih next (by rw [absorb_size]; exact le_trans behind (Nat.le_add_right _ _)) others
          (fun command member => sized command (mem_cons_of_mem _ member))
          fun command member => prefixed command (mem_cons_of_mem _ member)
      have same : get arch .size segment = get arch .fileSize segment := supported
      rw [if_neg (not_not_intro same)]
      dsimp only
      rw [nextLoadCommand, commandSize_eq expanded.holdsOther, ran, supportedOnes_cons supported]
      refine ⟨last, kept, ?_⟩
      simp only [forall_mem_cons, supported, true_and, totalSize_cons, add_assoc, add_comm 1]
    · have differ : get arch .size segment ≠ get arch .fileSize segment := supported
      rw [if_pos differ, supportedOnes_stop supported, if_neg fun all => supported (all segment mem_cons_self)]
      exact ⟨memory, absorbed, rfl⟩

end Runs

end OpenCore.MergedSegments
