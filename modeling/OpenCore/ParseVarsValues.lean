import OpenCore.ParseVarsGrammar

/-!
The parser inside a value. Between two turns the characters of the value read so far lie
right before the cursor, from the token on: a quote or an escape shifts them over itself.
What lies before the value is not touched.
-/

namespace OpenCore.ParseVarsValues

open AddressSpace ParseVars ParseVarsTurns ParseVarsGrammar List

variable {format : StringFormat} {tokensOnly : Bool}

def granted : Allocations := ⟨true, fun _ => true⟩

section Segments

def Segment (format : StringFormat) (memory : Memory) : Nat → List Nat → Nat → Prop
  | address, [], limit => address = limit
  | address, ch :: rest, limit =>
    charAt format memory address = ch ∧ ch ≠ charNull ∧
      Segment format memory (address + format.width) rest limit

variable {memory other : Memory} {address limit ch : Nat} {chars : List Nat}

variable (segment : Segment format memory address chars limit)
include segment

theorem Segment.le : address ≤ limit := by
  induction chars generalizing address with
  | nil => exact le_of_eq segment
  | cons ch rest ih => exact le_trans (Nat.le_add_right _ _) (ih segment.2.2)

theorem Segment.congr
    (same : ∀ place, address ≤ place → place < limit → other place = memory place) :
    Segment format other address chars limit := by
  induction chars generalizing address with
  | nil => exact segment
  | cons ch rest ih =>
    obtain ⟨found, nonzero, behind⟩ := segment
    have bound := behind.le
    refine ⟨?_, nonzero, ih behind fun place lower upper => same place (by omega) upper⟩
    rw [← found]
    exact load_congr fun place lower upper => same place lower (by omega)

theorem Segment.snoc (found : charAt format memory limit = ch) (nonzero : ch ≠ charNull) :
    Segment format memory address (chars ++ [ch]) (limit + format.width) := by
  induction chars generalizing address with
  | nil =>
    cases segment
    exact ⟨found, nonzero, rfl⟩
  | cons first rest ih => exact ⟨segment.1, segment.2.1, ih segment.2.2⟩

theorem Segment.stored
    (ends : charAt format memory limit = charNull) : Stored format memory address chars := by
  induction chars generalizing address with
  | nil =>
    cases segment
    exact ends
  | cons first rest ih => exact ⟨segment.1, segment.2.1, ih segment.2.2⟩

theorem Segment.shifted {offset : Nat}
    (same : ∀ place, address ≤ place → place < limit → other (place + offset) = memory place) :
    Segment format other (address + offset) chars (limit + offset) := by
  induction chars generalizing address with
  | nil => exact congrArg (· + offset) segment
  | cons ch rest ih =>
    obtain ⟨found, nonzero, behind⟩ := segment
    have bound := behind.le
    have moved : Segment format other (address + format.width + offset) rest (limit + offset) :=
      ih behind fun place lower upper => same place (by omega) upper
    refine ⟨?_, nonzero, ?_⟩
    · rw [← found]
      apply load_shift
      intro index small
      rw [← same (address + index) (by omega) (by omega)]
      congr 1
      omega
    · rwa [Nat.add_right_comm] at moved

end Segments

section Leading

/-- Whatever a run from the later parser returns, a run from the earlier one does. -/
def Leads (format : StringFormat) (tokensOnly : Bool) (before after : Parser) : Prop :=
  ∀ fuel outcome, after.run format tokensOnly granted fuel = some outcome →
    ∃ more, before.run format tokensOnly granted more = some outcome

variable {before middle after : Parser} {ch : Nat}

theorem Leads.refl : Leads format tokensOnly before before := fun fuel _ ran => ⟨fuel, ran⟩

theorem Leads.trans (first : Leads format tokensOnly before middle)
    (second : Leads format tokensOnly middle after) : Leads format tokensOnly before after := by
  intro fuel outcome ran
  obtain ⟨more, ran⟩ := second fuel outcome ran
  exact first more outcome ran

theorem leads_of_turn (turned : before.turn format tokensOnly granted = .ok (ch, after))
    (nonzero : ch ≠ charNull) : Leads format tokensOnly before after := by
  intro fuel outcome ran
  refine ⟨fuel + 1, ?_⟩
  rw [Parser.run, turned]
  exact (if_neg nonzero).trans ran

end Leading

section Values

structure Holds (format : StringFormat) (base : Nat) (prior text : List Nat) (parser : Parser) :
    Prop where
  retake : parser.retake = false
  token : ∃ token, parser.value = some token ∧ base ≤ token ∧
    Segment format parser.memory token prior parser.pos
  text : Stored format parser.memory parser.pos text

structure InValue (format : StringFormat) (base : Nat) (quoting : Quoting)
    (prior text : List Nat) (parser : Parser) : Prop
    extends Holds format base prior text parser where
  state : parser.state = quoting.state
  quoteChar : quoting ≠ .unquoted → parser.quoteChar = quoting.char

structure InShell (format : StringFormat) (base : Nat) (quoting : Quoting)
    (prior text : List Nat) (parser : Parser) : Prop
    extends Holds format base prior text parser where
  state : parser.state = .shellExpansion
  pushState : parser.pushState = quoting.state
  quoteChar : quoting ≠ .unquoted → parser.quoteChar = quoting.char

structure Took (format : StringFormat) (tokensOnly : Bool) (base count : Nat) (expanded : Bool)
    (before after : Parser) : Prop where
  leads : Leads format tokensOnly before after
  pos : after.pos = before.pos + format.width * count
  parsedVars : after.parsedVars = before.parsedVars
  originalValue : after.originalValue = before.originalValue
  pushState : after.pushState ≠ .whiteSpace ↔ before.pushState ≠ .whiteSpace ∨ expanded
  below : ∀ place, place < base → after.memory place = before.memory place

variable {base : Nat} {quoting : Quoting} {prior text : List Nat} {ch : Nat}
  {before middle after parser : Parser}

theorem Took.refl : Took format tokensOnly base 0 false before before where
  leads := Leads.refl
  pos := rfl
  parsedVars := rfl
  originalValue := rfl
  pushState := by simp
  below _ _ := rfl

theorem Took.trans {first second : Nat} {early late : Bool}
    (former : Took format tokensOnly base first early before middle)
    (latter : Took format tokensOnly base second late middle after) :
    Took format tokensOnly base (first + second) (early || late) before after where
  leads := former.leads.trans latter.leads
  pos := by rw [latter.pos, former.pos, Nat.mul_add, Nat.add_assoc]
  parsedVars := latter.parsedVars.trans former.parsedVars
  originalValue := latter.originalValue.trans former.originalValue
  pushState := by rw [latter.pushState, former.pushState, Bool.or_eq_true, or_assoc]
  below place bound := (latter.below place bound).trans (former.below place bound)

theorem Quoting.state_ne_whiteSpace : quoting.state ≠ .whiteSpace := by
  cases quoting <;> decide

theorem Holds.shifted (holds : Holds format base prior (ch :: text) parser) :
    ∃ token memory, (parser.shiftToken format) = { parser with
          value := some token
          memory := memory
          accesses := (parser.shiftToken format).accesses } ∧
      base ≤ token ∧ Segment format memory token prior (parser.pos + format.width) ∧
      Stored format memory (parser.pos + format.width) text ∧
      ∀ place, place < base → memory place = parser.memory place := by
  obtain ⟨token, found, lower, segment⟩ := holds.token
  have bound := segment.le
  refine ⟨token + format.width,
    copyMem parser.memory (token + format.width) token (parser.pos - token), ?_, by omega, ?_, ?_, ?_⟩
  · simp only [Parser.shiftToken, found, Parser.access]
  · apply segment.shifted
    intro place above below
    rw [copyMem, if_pos (by omega)]
    congr 1
    omega
  · exact holds.text.2.2.congr fun place above => if_neg (by omega)
  · intro place below
    exact if_neg (by omega)

theorem turn_of_value (inValue : InValue format base quoting prior (ch :: text) parser) :
    parser.turn format tokensOnly granted =
      .ok (((parser.access parser.pos format.width).inValue format ch).1,
        ((parser.access parser.pos format.width).inValue format ch).2.advance format) := by
  have state : (parser.access parser.pos format.width).state = quoting.state := inValue.state
  rw [Parser.turn, inValue.text.1, Parser.inState, state]
  cases quoting <;> rfl

theorem turn_of_shell (inShell : InShell format base quoting prior (ch :: text) parser) :
    parser.turn format tokensOnly granted =
      .ok (ch, ((parser.access parser.pos format.width).inShellExpansion ch).advance format) := by
  have state : (parser.access parser.pos format.width).state = .shellExpansion := inShell.state
  rw [Parser.turn, inShell.text.1, Parser.inState, state]
  rfl

end Values

section Turns
variable {base : Nat} {quoting : Quoting} {prior text : List Nat} {ch : Nat}
  {before after parser : Parser}
variable {expanded : Bool} {more : Nat}

theorem state_of_quoted (quoted : quoting ≠ .unquoted) : quoting.state = .quotedValue := by
  cases quoting with
  | unquoted => exact absurd rfl quoted
  | single => rfl
  | double => rfl

structure Left (format : StringFormat) (base more : Nat) (expanded : Bool) (before after : Parser) :
    Prop where
  retake : after.retake = before.retake
  pos : after.pos = before.pos + format.width * more
  parsedVars : after.parsedVars = before.parsedVars
  originalValue : after.originalValue = before.originalValue
  pushState : after.pushState ≠ .whiteSpace ↔ before.pushState ≠ .whiteSpace ∨ expanded
  below : ∀ place, place < base → after.memory place = before.memory place

theorem advance_of_unset (unset : parser.retake = false) :
    parser.advance format = { parser with pos := parser.pos + format.width } := by
  rw [Parser.advance, unset]
  rfl

theorem took_of_left (unset : before.retake = false)
    (turned : before.turn format tokensOnly granted = .ok (ch, after.advance format))
    (nonzero : ch ≠ charNull)
    (left : Left format base more expanded (before.access before.pos format.width) after) :
    Took format tokensOnly base (more + 1) expanded before (after.advance format) := by
  have pos := left.pos
  refine ⟨leads_of_turn turned nonzero, ?_, ?_, ?_, ?_, ?_⟩
  · rw [advance_of_unset (left.retake.trans unset), Nat.mul_succ, ← Nat.add_assoc]
    exact congrArg (· + format.width) pos
  all_goals rw [advance_of_unset (left.retake.trans unset)]
  · exact left.parsedVars
  · exact left.originalValue
  · exact left.pushState
  · exact left.below

theorem InValue.accessed {address size : Nat} (inValue : InValue format base quoting prior text before) :
    InValue format base quoting prior text (before.access address size) :=
  ⟨⟨inValue.retake, inValue.token, inValue.text⟩, inValue.state, inValue.quoteChar⟩

theorem Holds.passed (holds : Holds format base prior (ch :: text) before)
    (retake : after.retake = before.retake) (value : after.value = before.value)
    (pos : after.pos = before.pos) (memory : after.memory = before.memory) :
    Holds format base (prior ++ [ch]) text (after.advance format) := by
  obtain ⟨token, found, lower, segment⟩ := holds.token
  obtain ⟨here, nonzero, behind⟩ := holds.text
  have unset := retake.trans holds.retake
  rw [← pos, ← memory] at here behind segment
  rw [advance_of_unset unset]
  exact ⟨unset, ⟨token, value.trans found, lower, segment.snoc here nonzero⟩, behind⟩

theorem Holds.dropped {token : Nat} {memory : Memory} (unset : after.retake = false)
    (value : after.value = some token) (found : after.memory = memory) (lower : base ≤ token)
    (segment : Segment format memory token prior (after.pos + format.width))
    (stored : Stored format memory (after.pos + format.width) text) :
    Holds format base prior text (after.advance format) := by
  rw [advance_of_unset unset]
  refine ⟨unset, ⟨token, value, lower, ?_⟩, ?_⟩
  · rw [← found] at segment
    exact segment
  · rw [← found] at stored
    exact stored

theorem open_inValue (quoted : quoting ≠ .unquoted)
    (inValue : InValue format base .unquoted prior (quoting.char :: text) parser) :
    ∃ after, parser.inValue format quoting.char = (quoting.char, after) ∧
      Left format base 0 false parser after ∧
      InValue format base quoting prior text (after.advance format) := by
  have holds : Holds format base prior (quoting.char :: text)
      { parser with quoteChar := quoting.char } := ⟨inValue.retake, inValue.token, inValue.text⟩
  obtain ⟨token, memory, shifted, lower, segment, stored, below⟩ := holds.shifted
  have opens : quoting.char = singleQuote ∨ quoting.char = doubleQuote := by
    cases quoting with
    | unquoted => exact absurd rfl quoted
    | single => exact .inl rfl
    | double => exact .inr rfl
  have outside : parser.state ≠ .quotedValue := by
    rw [inValue.state]
    decide
  rw [Parser.inValue, if_pos ⟨outside, opens⟩, shifted]
  refine ⟨_, rfl, ⟨rfl, rfl, rfl, rfl, by simp, below⟩, ?_, ?_, ?_⟩
  · exact Holds.dropped inValue.retake rfl rfl lower segment stored
  · exact advance_state.trans (state_of_quoted quoted).symm
  · exact fun _ => advance_quoteChar

theorem close_inValue (quoted : quoting ≠ .unquoted)
    (inValue : InValue format base quoting prior (quoting.char :: text) parser) :
    ∃ after, parser.inValue format quoting.char = (quoting.char, after) ∧
      Left format base 0 false parser after ∧
      InValue format base .unquoted prior text (after.advance format) := by
  obtain ⟨token, memory, shifted, lower, segment, stored, below⟩ := inValue.toHolds.shifted
  have inside : parser.state = .quotedValue := inValue.state.trans (state_of_quoted quoted)
  rw [Parser.inValue, if_neg fun opens => opens.1 inside,
    if_pos ⟨inside, (inValue.quoteChar quoted).symm⟩, shifted]
  refine ⟨_, rfl, ⟨rfl, rfl, rfl, rfl, by simp, below⟩, ?_, ?_, ?_⟩
  · exact Holds.dropped inValue.retake rfl rfl lower segment stored
  · exact advance_state
  · exact fun unquoted => absurd rfl unquoted

theorem escape_inValue (unsingle : quoting ≠ .single)
    (inValue : InValue format base quoting prior (backslash :: ch :: text) parser) :
    ∃ after, parser.inValue format backslash = (backslash, after) ∧
      Left format base 1 false parser after ∧
      InValue format base quoting (prior ++ [ch]) text (after.advance format) := by
  have looked : Holds format base prior (backslash :: ch :: text)
      (parser.access parser.pos format.width) := ⟨inValue.retake, inValue.token, inValue.text⟩
  obtain ⟨token, memory, shifted, lower, segment, stored, below⟩ := looked.shifted
  have segment : Segment format memory token prior (parser.pos + format.width) := segment
  obtain ⟨here, nonzero, behind⟩ :
    Stored format memory (parser.pos + format.width) (ch :: text) := stored
  have escapes : (parser.state ≠ .quotedValue ∨ parser.quoteChar = doubleQuote) ∧
      backslash = backslash := by
    refine ⟨?_, rfl⟩
    cases quoting with
    | unquoted => exact .inl (by rw [inValue.state]; decide)
    | single => exact absurd rfl unsingle
    | double => exact .inr (inValue.quoteChar (by decide))
  have unopened : ¬(parser.state ≠ .quotedValue ∧
      (backslash = singleQuote ∨ backslash = doubleQuote)) := fun opens => absurd opens.2 (by decide)
  have unclosed : ¬(parser.state = .quotedValue ∧ backslash = parser.quoteChar) := by
    rintro ⟨inside, closes⟩
    have quoted : quoting ≠ .unquoted := quoted_of_state (inValue.state.symm.trans inside)
    rw [inValue.quoteChar quoted] at closes
    cases quoting <;> cases closes
  rw [Parser.inValue, if_neg unopened, if_neg unclosed, if_pos escapes]
  -- Read from the old cursor, the next character is the backslash itself.
  simp only [inValue.text.1, true_or, or_true, if_true]
  rw [shifted]
  refine ⟨_, rfl, ⟨rfl, (Nat.mul_one _).symm ▸ rfl, rfl, rfl, Iff.symm (or_iff_left Bool.false_ne_true),
    below⟩, ?_, ?_, ?_⟩
  · exact Holds.dropped inValue.retake rfl rfl lower (segment.snoc here nonzero) behind
  · exact advance_state.trans inValue.state
  · exact fun quoted => advance_quoteChar.trans (inValue.quoteChar quoted)

theorem expand_inValue (inValue : InValue format base quoting prior (backquote :: text) parser) :
    ∃ after, parser.inValue format backquote = (backquote, after) ∧
      Left format base 0 true parser after ∧
      InShell format base quoting (prior ++ [backquote]) text (after.advance format) := by
  have unclosed : ¬(parser.state = .quotedValue ∧ backquote = parser.quoteChar) := by
    rintro ⟨inside, closes⟩
    have quoted : quoting ≠ .unquoted := quoted_of_state (inValue.state.symm.trans inside)
    rw [inValue.quoteChar quoted] at closes
    cases quoting <;> cases closes
  rw [Parser.inValue, if_neg fun opens => absurd opens.2 (by decide), if_neg unclosed,
    if_neg fun escape => absurd escape.2 (by decide), if_pos rfl]
  have pushed : quoting.state ≠ .whiteSpace := Quoting.state_ne_whiteSpace
  refine ⟨_, rfl, ⟨rfl, rfl, rfl, rfl, ?_, fun _ _ => rfl⟩, ?_, ?_, ?_, ?_⟩
  · exact iff_of_true (by rw [inValue.state]; exact pushed) (.inr rfl)
  · exact inValue.toHolds.passed rfl rfl rfl rfl
  · exact advance_state
  · exact advance_pushState.trans inValue.state
  · exact fun quoted => advance_quoteChar.trans (inValue.quoteChar quoted)

theorem plain_inValue (unexpanded : ch ≠ backquote)
    (stands : quoting = .unquoted → ch ≠ singleQuote ∧ ch ≠ doubleQuote ∧ ocIsSpaceOrNull ch = false)
    (unclosed : quoting ≠ .unquoted → ch ≠ quoting.char)
    (unescaped : quoting ≠ .single → ch ≠ backslash)
    (inValue : InValue format base quoting prior (ch :: text) parser) :
    ∃ after, parser.inValue format ch = (ch, after) ∧ Left format base 0 false parser after ∧
      InValue format base quoting (prior ++ [ch]) text (after.advance format) := by
  have noOpen : ¬(parser.state ≠ .quotedValue ∧ (ch = singleQuote ∨ ch = doubleQuote)) := by
    rintro ⟨outside, opens⟩
    rw [inValue.state] at outside
    obtain ⟨single, double, -⟩ := stands (quoting_of_value outside)
    exact opens.elim single double
  have noClose : ¬(parser.state = .quotedValue ∧ ch = parser.quoteChar) := by
    rintro ⟨inside, closes⟩
    have quoted : quoting ≠ .unquoted := quoted_of_state (inValue.state.symm.trans inside)
    exact unclosed quoted (closes.trans (inValue.quoteChar quoted))
  have noEscape : ¬((parser.state ≠ .quotedValue ∨ parser.quoteChar = doubleQuote) ∧
      ch = backslash) := by
    rintro ⟨outside, escape⟩
    refine unescaped ?_ escape
    rintro rfl
    rw [inValue.state, inValue.quoteChar (by decide)] at outside
    exact absurd outside (by decide)
  have noEnd : ¬(parser.state = .value ∧ ocIsSpaceOrNull ch = true) := by
    rintro ⟨outside, blank⟩
    have unquoted : quoting = .unquoted :=
      quoting_of_value (by rw [← inValue.state, outside]; decide)
    rw [(stands unquoted).2.2] at blank
    cases blank
  rw [Parser.inValue, if_neg noOpen, if_neg noClose, if_neg noEscape, if_neg unexpanded,
    if_neg noEnd]
  refine ⟨_, rfl, ⟨rfl, rfl, rfl, rfl, by simp, fun _ _ => rfl⟩, ?_, ?_, ?_⟩
  · exact inValue.toHolds.passed rfl rfl rfl rfl
  · exact advance_state.trans inValue.state
  · exact fun quoted => advance_quoteChar.trans (inValue.quoteChar quoted)

theorem inValue_read {Reached : Parser → Prop}
    (inValue : InValue format base quoting prior (ch :: text) before)
    (state : ∃ after, (before.access before.pos format.width).inValue format ch = (ch, after) ∧
      Left format base more expanded (before.access before.pos format.width) after ∧
      Reached (after.advance format)) :
    ∃ after, Took format tokensOnly base (more + 1) expanded before after ∧ Reached after := by
  obtain ⟨after, result, left, reached⟩ := state
  have turned : before.turn format tokensOnly granted = _ := turn_of_value inValue
  rw [result] at turned
  exact ⟨_, took_of_left inValue.retake turned inValue.text.2.1 left, reached⟩

theorem shell_turn (inShell : InShell format base quoting prior (ch :: text) before) :
    ∃ after, Took format tokensOnly base 1 false before after ∧
      (ch = backquote → InValue format base quoting (prior ++ [ch]) text after) ∧
      (ch ≠ backquote → InShell format base quoting (prior ++ [ch]) text after) := by
  have turned : before.turn format tokensOnly granted = _ := turn_of_shell inShell
  have nonzero := inShell.text.2.1
  rw [Parser.inShellExpansion] at turned
  split at turned
  · rename_i ends
    refine ⟨_, took_of_left inShell.retake turned nonzero
      ⟨rfl, rfl, rfl, rfl, Iff.symm (or_iff_left Bool.false_ne_true), fun _ _ => rfl⟩,
      fun _ => ⟨?_, ?_, ?_⟩, fun goesOn => ?_⟩
    · exact inShell.toHolds.passed rfl rfl rfl rfl
    · exact advance_state.trans inShell.pushState
    · exact fun quoted => advance_quoteChar.trans (inShell.quoteChar quoted)
    · exact absurd ends goesOn
  · rename_i goesOn
    refine ⟨_, took_of_left inShell.retake turned nonzero
      ⟨rfl, rfl, rfl, rfl, Iff.symm (or_iff_left Bool.false_ne_true), fun _ _ => rfl⟩,
      fun ends => ?_, fun _ => ⟨?_, ?_, ?_, ?_⟩⟩
    · exact absurd ends goesOn
    · exact inShell.toHolds.passed rfl rfl rfl rfl
    · exact advance_state.trans inShell.state
    · exact advance_pushState.trans inShell.pushState
    · exact fun quoted => advance_quoteChar.trans (inShell.quoteChar quoted)

theorem shell_read {shell : List Nat} (within : ∀ ch ∈ shell, ch ≠ backquote)
    (inShell : InShell format base quoting prior (shell ++ backquote :: text) before) :
    ∃ after, Took format tokensOnly base (shell.length + 1) false before after ∧
      InValue format base quoting (prior ++ shell ++ [backquote]) text after := by
  induction shell generalizing before prior with
  | nil =>
    obtain ⟨after, took, ends, -⟩ := shell_turn inShell
    refine ⟨after, took, ?_⟩
    rw [append_nil]
    exact ends rfl
  | cons ch shell ih =>
    obtain ⟨middle, first, -, goesOn⟩ := shell_turn inShell
    have inside : ch ≠ backquote := within ch mem_cons_self
    obtain ⟨after, rest, inValue⟩ := ih (fun other member =>
      within other (mem_cons_of_mem _ member)) (goesOn inside)
    refine ⟨after, ?_, ?_⟩
    · rw [length_cons, Nat.add_comm]
      exact first.trans rest
    · rwa [append_assoc prior, singleton_append] at inValue

end Turns

section Readings
variable {base : Nat} {quoting : Quoting} {prior text rest : List Nat} {reading : Reading}
  {before : Parser}

@[simp] theorem stripped_consExpansion (shell : List Nat) :
    (reading.consExpansion shell).stripped =
      backquote :: shell ++ [backquote] ++ reading.stripped := by
  have letters : ∀ codes : List Nat, ((codes.map letter).filter fun letter => !letter.kept).map
      Letter.code = codes := by
    intro codes
    induction codes with
    | nil => rfl
    | cons code codes ih =>
      rw [map_cons, filter_cons_of_pos rfl, map_cons, ih]
      rfl
  rw [Reading.stripped, Reading.consExpansion, filter_append, map_append, letters]
  rfl

theorem ordinary_spec {ch : Nat} (stands : ordinary quoting ch) :
    ch ≠ backquote ∧ ch ≠ backslash ∧ ch ≠ doubleQuote ∧
      (quoting ≠ .double → ch ≠ singleQuote ∧ ocIsSpace ch = false) := by
  simp only [ordinary, Bool.and_eq_true, Bool.or_eq_true, bne_iff_ne, beq_iff_eq,
    Bool.not_eq_true'] at stands
  obtain ⟨⟨⟨unquoted, unescaped⟩, unexpanded⟩, double | single⟩ := stands
  · exact ⟨unexpanded, unescaped, unquoted, fun other => absurd double other⟩
  · exact ⟨unexpanded, unescaped, unquoted, fun _ => single⟩

/-- The parser takes the characters of a value, up to its end. The letters it leaves behind
are those of the value but for the backslashes that stay in double quotes. -/
theorem value_read (value : Value quoting text reading rest) (visible : reading.hidden = false)
    (inValue : InValue format base quoting prior text before) :
    ∃ count after, count + rest.length = text.length ∧
      Took format tokensOnly base count reading.expanded before after ∧
      InValue format base .unquoted (prior ++ reading.stripped) rest after := by
  induction value generalizing before prior with
  | ends rest delimited =>
    refine ⟨0, before, Nat.zero_add _, Took.refl, ?_⟩
    rwa [show Reading.empty.stripped = [] from rfl, append_nil]
  | opens quoted inside ih =>
    obtain ⟨middle, first, entered⟩ := inValue_read inValue (open_inValue quoted inValue.accessed)
    obtain ⟨count, after, counted, more, reached⟩ := ih visible entered
    refine ⟨_, after, ?_, first.trans more, reached⟩
    rw [length_cons]
    omega
  | closes quoted outside ih =>
    obtain ⟨middle, first, left⟩ := inValue_read inValue (close_inValue quoted inValue.accessed)
    obtain ⟨count, after, counted, more, reached⟩ := ih visible left
    refine ⟨_, after, ?_, first.trans more, reached⟩
    rw [length_cons]
    omega
  | @quotes ch text rest reading inside behind ih =>
    have unhidden : (ch == backquote) = false ∧ reading.hidden = false := by
      simpa [Reading.consQuoted] using visible
    have unclosed : Quoting.single ≠ .unquoted → ch ≠ Quoting.single.char := fun _ => inside
    obtain ⟨middle, first, taken⟩ := inValue_read inValue (plain_inValue
      (by simpa using unhidden.1) (fun unquoted => by cases unquoted) unclosed
      (fun unsingle => absurd rfl unsingle) inValue.accessed)
    obtain ⟨count, after, counted, more, reached⟩ := ih unhidden.2 taken
    refine ⟨_, after, ?_, first.trans more, ?_⟩
    · rw [length_cons]
      omega
    · rwa [append_assoc, singleton_append] at reached
  | @escapes quoting ch text rest reading literal behind ih =>
    have unsingle : quoting ≠ .single := by
      rintro rfl
      cases literal with
      | inl unquoted => cases unquoted
      | inr double => cases double.1
    obtain ⟨middle, first, taken⟩ := inValue_read inValue (escape_inValue unsingle inValue.accessed)
    obtain ⟨count, after, counted, more, reached⟩ := ih visible taken
    refine ⟨_, after, ?_, first.trans more, ?_⟩
    · simp only [length_cons]
      omega
    · rwa [append_assoc, singleton_append] at reached
  | @keeps ch text rest reading unlisted behind ih =>
    -- The parser takes this backslash for an escape as well.
    have unsingle : Quoting.double ≠ .single := by decide
    obtain ⟨middle, first, taken⟩ := inValue_read inValue
      (escape_inValue unsingle inValue.accessed)
    obtain ⟨count, after, counted, more, reached⟩ := ih visible taken
    refine ⟨_, after, ?_, first.trans more, ?_⟩
    · simp only [length_cons]
      omega
    · rwa [append_assoc, singleton_append] at reached
  | @expands quoting shell text rest reading plain within behind ih =>
    obtain ⟨entered, first, inShell⟩ := inValue_read inValue (expand_inValue inValue.accessed)
    obtain ⟨middle, expansion, left⟩ := shell_read within inShell
    obtain ⟨count, after, counted, more, reached⟩ := ih visible left
    have taken : Took format tokensOnly base _ true before after :=
      (first.trans expansion).trans more
    refine ⟨_, after, ?_, taken, ?_⟩
    · simp only [length_cons, length_append]
      omega
    · rw [stripped_consExpansion]
      simpa only [append_assoc, singleton_append, cons_append, nil_append] using reached
  | @plain quoting ch text rest reading unsingle stands behind ih =>
    obtain ⟨unexpanded, unescaped, unquoted, single⟩ := ordinary_spec stands
    have outside : quoting = .unquoted →
        ch ≠ singleQuote ∧ ch ≠ doubleQuote ∧ ocIsSpaceOrNull ch = false := by
      rintro rfl
      obtain ⟨unsingle, unblank⟩ := single (by decide)
      have nonzero : (ch == charNull) = false := beq_false_of_ne inValue.text.2.1
      exact ⟨unsingle, unquoted, by rw [ocIsSpaceOrNull, nonzero, unblank]; rfl⟩
    have unclosed : quoting ≠ .unquoted → ch ≠ quoting.char := by
      intro quoted
      cases quoting with
      | unquoted => exact absurd rfl quoted
      | single => exact absurd rfl unsingle
      | double => exact unquoted
    obtain ⟨middle, first, taken⟩ := inValue_read inValue
      (plain_inValue unexpanded outside unclosed (fun _ => unescaped) inValue.accessed)
    obtain ⟨count, after, counted, more, reached⟩ := ih visible taken
    refine ⟨_, after, ?_, first.trans more, ?_⟩
    · rw [length_cons]
      omega
    · rwa [append_assoc, singleton_append] at reached

end Readings

end OpenCore.ParseVarsValues
