import OpenCore.ParseVars

/-!
Where a turn of `OcParseVars` moves its cursor. The lexical context of a character says what
the parser takes it for, and which backslashes are escapes: the parser passes an escape
together with the character behind it, whatever that is.
-/

namespace OpenCore.ParseVarsTurns

open AddressSpace ParseVars

section Lexical

inductive Quoting where
  | unquoted
  | single
  | double
  deriving DecidableEq

inductive Context where
  | whiteSpace
  | comment
  | name
  | value (quoting : Quoting)
  | shellExpansion (quoting : Quoting)
  deriving DecidableEq

def Quoting.char : Quoting → Nat
  | .unquoted => charNull
  | .single => singleQuote
  | .double => doubleQuote

def afterValueChar (ch : Nat) : Quoting → Context
  | .unquoted =>
    if ch = singleQuote then .value .single
    else if ch = doubleQuote then .value .double
    else if ch = backquote then .shellExpansion .unquoted
    else if ocIsSpaceOrNull ch then .whiteSpace
    else .value .unquoted
  | quoting =>
    if ch = quoting.char then .value .unquoted
    else if ch = backquote then .shellExpansion quoting
    else .value quoting

def Context.after (ch : Nat) : Context → Context
  | .whiteSpace =>
    if ch = hash then .comment else if ocIsSpaceOrNull ch then .whiteSpace else .name
  | .comment => if ch = lineFeed then .whiteSpace else .comment
  | .name =>
    if ch = equalsSign then .value .unquoted
    else if ocIsSpaceOrNull ch then .whiteSpace
    else .name
  | .value quoting => afterValueChar ch quoting
  | .shellExpansion quoting => if ch = backquote then .value quoting else .shellExpansion quoting

def starts (tokensOnly : Bool) (ch : Nat) (ctx : Context) : Bool :=
  tokensOnly && ctx == .whiteSpace && ch != hash && !ocIsSpaceOrNull ch

def Context.entered (tokensOnly : Bool) (ch : Nat) (ctx : Context) : Context :=
  if starts tokensOnly ch ctx then .value .unquoted else ctx

def Context.escapes : Context → Bool
  | .value quoting => quoting != .single
  | _ => false

/-- Whether the last character of the string is an escape, from the context it begins in. -/
def endsInEscape (tokensOnly : Bool) : Context → List Nat → Bool
  | _, [] => false
  | ctx, [ch] => ch == backslash && (ctx.entered tokensOnly ch).escapes
  | ctx, ch :: next :: rest =>
    if ch = backslash ∧ (ctx.entered tokensOnly ch).escapes then
      endsInEscape tokensOnly (ctx.entered tokensOnly ch) rest
    else
      endsInEscape tokensOnly ((ctx.entered tokensOnly ch).after ch) (next :: rest)

def Stored (format : StringFormat) (memory : Memory) : Nat → List Nat → Prop
  | address, [] => charAt format memory address = charNull
  | address, ch :: rest =>
    charAt format memory address = ch ∧ ch ≠ charNull ∧
      Stored format memory (address + format.width) rest

instance decidableStored (format : StringFormat) (memory : Memory) :
    ∀ address chars, Decidable (Stored format memory address chars)
  | _, [] => inferInstanceAs (Decidable (_ = _))
  | address, _ :: rest =>
    have := decidableStored format memory (address + format.width) rest
    inferInstanceAs (Decidable (_ ∧ _ ∧ _))

end Lexical

variable {format : StringFormat} {tokensOnly : Bool} {allocations : Allocations}

theorem Stored.congr {memory other : Memory} {address : Nat} {chars : List Nat}
    (stored : Stored format memory address chars)
    (same : ∀ place, address ≤ place → other place = memory place) :
    Stored format other address chars := by
  have first : charAt format other address = charAt format memory address :=
    load_congr fun place above _ => same place above
  induction chars generalizing address with
  | nil => exact first.trans stored
  | cons ch rest ih =>
    obtain ⟨here, nonzero, behind⟩ := stored
    have above : ∀ place, address + format.width ≤ place → other place = memory place :=
      fun place bound => same place (by omega)
    exact ⟨first.trans here, nonzero, ih behind above (load_congr fun place bound _ => above place bound)⟩

section Moves

def Access.inside (low high : Nat) (access : Access) : Prop :=
  low ≤ access.address ∧ access.address + access.size ≤ high

structure Moves (low high : Nat) (before after : Parser) : Prop where
  accesses : ∃ more, after.accesses = before.accesses ++ more ∧
    ∀ access ∈ more, Access.inside low high access
  behind : ∀ place, high ≤ place → after.memory place = before.memory place

variable {low high : Nat} {before middle after parser : Parser}

theorem Moves.refl (sameAccesses : after.accesses = before.accesses)
    (sameMemory : after.memory = before.memory) : Moves low high before after where
  accesses := ⟨[], by rw [sameAccesses, List.append_nil], fun _ member => by cases member⟩
  behind _ _ := by rw [sameMemory]

theorem Moves.trans (first : Moves low high before middle) (second : Moves low high middle after) :
    Moves low high before after := by
  obtain ⟨early, earlyEq, earlyInside⟩ := first.accesses
  obtain ⟨late, lateEq, lateInside⟩ := second.accesses
  constructor
  · refine ⟨early ++ late, by rw [lateEq, earlyEq, List.append_assoc], ?_⟩
    intro access member
    rcases List.mem_append.mp member with member | member
    · exact earlyInside access member
    · exact lateInside access member
  · intro place above
    rw [second.behind place above, first.behind place above]

theorem Moves.congr {start final : Parser} (moves : Moves low high before after)
    (startAccesses : start.accesses = before.accesses) (startMemory : start.memory = before.memory)
    (finalAccesses : final.accesses = after.accesses) (finalMemory : final.memory = after.memory) :
    Moves low high start final := by
  constructor
  · rw [startAccesses, finalAccesses]
    exact moves.accesses
  · intro place above
    rw [startMemory, finalMemory]
    exact moves.behind place above

theorem Moves.mem {access : Access} (moves : Moves low high before after)
    (member : access ∈ before.accesses) : access ∈ after.accesses := by
  obtain ⟨more, extended, _⟩ := moves.accesses
  rw [extended]
  exact List.mem_append_left _ member

theorem Moves.within {limit : Nat} (moves : Moves low limit before after)
    (bound : limit ≤ high) (within : ∀ access ∈ before.accesses, Access.inside low high access) :
    ∀ access ∈ after.accesses, Access.inside low high access := by
  obtain ⟨more, extended, inside⟩ := moves.accesses
  intro access member
  rw [extended] at member
  rcases List.mem_append.mp member with old | new
  · exact within access old
  · obtain ⟨lower, upper⟩ := inside access new
    exact ⟨lower, upper.trans bound⟩

theorem access_moves {address size : Nat} (lower : low ≤ address) (upper : address + size ≤ high) :
    Moves low high parser (parser.access address size) where
  accesses := ⟨_, rfl, by
    intro access member
    rw [List.mem_singleton.mp member]
    exact ⟨lower, upper⟩⟩
  behind _ _ := rfl

theorem terminate_moves (lower : low ≤ parser.pos) :
    Moves low (parser.pos + format.width) parser (parser.terminate format) := by
  have accessed : Moves low (parser.pos + format.width) parser
      (parser.access parser.pos format.width) := access_moves lower (le_refl _)
  refine ⟨accessed.accesses, ?_⟩
  intro place above
  exact if_neg (by omega)

theorem shiftToken_moves {token : Nat} (value : parser.value = some token) (lower : low ≤ token)
    (upper : token ≤ parser.pos) :
    Moves low (parser.pos + format.width) parser (parser.shiftToken format) := by
  have read : Moves low (parser.pos + format.width) parser
      (parser.access token (parser.pos - token)) := access_moves lower (by omega)
  have written := read.trans (access_moves (show low ≤ token + format.width by omega)
    (show token + format.width + (parser.pos - token) ≤ parser.pos + format.width by omega))
  rw [Parser.shiftToken, value]
  refine ⟨written.accesses, ?_⟩
  intro place above
  exact if_neg (by omega)

end Moves

section Contexts

def Quoting.state : Quoting → ParseVarsState
  | .unquoted => .value
  | _ => .quotedValue

structure HasToken (low : Nat) (quoting : Quoting) (parser : Parser) : Prop where
  token : ∃ token, parser.value = some token ∧ low ≤ token ∧ token ≤ parser.pos
  quoteChar : quoting ≠ .unquoted → parser.quoteChar = quoting.char

def InContext (low : Nat) (parser : Parser) : Context → Prop
  | .whiteSpace => parser.state = .whiteSpace
  | .comment => parser.state = .comment
  | .name => parser.state = .name
  | .value quoting => parser.state = quoting.state ∧ HasToken low quoting parser
  | .shellExpansion quoting =>
    parser.state = .shellExpansion ∧ parser.pushState = quoting.state ∧
      HasToken low quoting parser

structure Ready (low : Nat) (ctx : Context) (parser : Parser) : Prop where
  lower : low ≤ parser.pos
  retake : parser.retake = false
  inContext : InContext low parser ctx

/-- How a turn moves the parser: to the same character as the first of a token, over an
escape and the character behind it, or to the next character. -/
inductive Passed (format : StringFormat) (tokensOnly : Bool) (low : Nat) (ctx : Context)
    (ch : Nat) (before after : Parser) : Prop where
  | started (begins : starts tokensOnly ch ctx) (pos : after.pos = before.pos)
      (memory : after.memory = before.memory) (ready : Ready low (.value .unquoted) after)
  | escaped (escape : ch = backslash ∧ ctx.escapes)
      (pos : after.pos = before.pos + format.width + format.width) (ready : Ready low ctx after)
  | passed (continues : starts tokensOnly ch ctx = false)
      (plain : ¬(ch = backslash ∧ ctx.escapes)) (pos : after.pos = before.pos + format.width)
      (ready : Ready low (ctx.after ch) after)

variable {low : Nat} {before after parser : Parser} {quoting : Quoting} {ch : Nat}

theorem Passed.ready {ctx : Context} (passed : Passed format tokensOnly low ctx ch before after) :
    ∃ next, Ready low next after := by
  cases passed with
  | started _ _ _ ready => exact ⟨_, ready⟩
  | escaped _ _ ready => exact ⟨_, ready⟩
  | passed _ _ _ ready => exact ⟨_, ready⟩

theorem HasToken.advanced (has : HasToken low quoting before) (value : after.value = before.value)
    (quoteChar : after.quoteChar = before.quoteChar) (pos : before.pos ≤ after.pos) :
    HasToken low quoting after := by
  obtain ⟨token, found, lower, upper⟩ := has.token
  constructor
  · exact ⟨token, value.trans found, lower, le_trans upper pos⟩
  · intro quoted
    rw [quoteChar]
    exact has.quoteChar quoted

@[simp] theorem advance_state : (parser.advance format).state = parser.state := by
  rw [Parser.advance]
  split <;> rfl

@[simp] theorem advance_pushState : (parser.advance format).pushState = parser.pushState := by
  rw [Parser.advance]
  split <;> rfl

@[simp] theorem advance_value : (parser.advance format).value = parser.value := by
  rw [Parser.advance]
  split <;> rfl

@[simp] theorem advance_quoteChar : (parser.advance format).quoteChar = parser.quoteChar := by
  rw [Parser.advance]
  split <;> rfl

@[simp] theorem advance_retake : (parser.advance format).retake = false := by
  rw [Parser.advance]
  split
  · rfl
  · rename_i unset
    exact Bool.eq_false_of_not_eq_true unset

theorem advance_pos (unset : parser.retake = false) :
    (parser.advance format).pos = parser.pos + format.width := by
  rw [Parser.advance, unset]
  rfl

theorem le_advance_pos {limit : Nat} (unset : parser.retake = false)
    (bound : limit ≤ parser.pos + format.width) : limit ≤ (parser.advance format).pos := by
  rw [advance_pos unset]
  exact bound

theorem passed_of_kept {ctx : Context} (ready : Ready low ctx before)
    (retake : after.retake = before.retake) (pos : after.pos = before.pos)
    (continues : starts tokensOnly ch ctx = false) (plain : ¬(ch = backslash ∧ ctx.escapes))
    (inContext : InContext low (after.advance format) (ctx.after ch)) :
    Passed format tokensOnly low ctx ch before (after.advance format) := by
  have moved : (after.advance format).pos = before.pos + format.width := by
    rw [advance_pos (retake.trans ready.retake), pos]
  refine .passed continues plain moved ⟨?_, advance_retake, inContext⟩
  have lower := ready.lower
  omega

end Contexts

section Turns
variable {low : Nat} {parser : Parser} {ch : Nat} {ctx : Context}

def Turned (format : StringFormat) (tokensOnly : Bool) (allocations : Allocations) (low : Nat)
    (ctx : Context) (ch : Nat) (before : Parser) : Except Parser (Nat × Parser) → Prop
  | .error stopped =>
    Moves low (before.pos + format.width) before stopped ∧
      ∃ index, allocations.item index = false
  | .ok (left, next) =>
    left = ch ∧ Moves low (before.pos + format.width) before next ∧
      Passed format tokensOnly low ctx ch before next

theorem advance_moves {high : Nat} {before after : Parser} (moves : Moves low high before after) :
    Moves low high before (after.advance format) := by
  refine moves.trans (Moves.refl ?_ ?_)
  · rw [Parser.advance]
    split <;> rfl
  · rw [Parser.advance]
    split <;> rfl

theorem addItem_error {stopped : Parser} (failed : parser.addItem allocations = .error stopped) :
    stopped = parser ∧ ∃ index, allocations.item index = false := by
  rw [Parser.addItem] at failed
  split at failed
  · cases failed
  · rename_i refused
    cases failed
    exact ⟨rfl, _, Bool.eq_false_of_not_eq_true refused⟩

theorem addItem_ok {added : Parser} (success : parser.addItem allocations = .ok added) :
    added = { parser with parsedVars := parser.parsedVars ++ [⟨none, none⟩] } := by
  rw [Parser.addItem] at success
  split at success
  · cases success
    rfl
  · cases success

theorem inWhiteSpace_turned (ready : Ready low .whiteSpace parser) :
    Turned format tokensOnly allocations low .whiteSpace ch parser
      (((parser.inWhiteSpace tokensOnly allocations ch).map (ch, ·)).map fun (left, next) =>
        (left, next.advance format)) := by
  have plain : ¬(ch = backslash ∧ Context.whiteSpace.escapes) := by simp [Context.escapes]
  have white : parser.state = .whiteSpace := ready.inContext
  rw [Parser.inWhiteSpace]
  split
  · rename_i isHash
    refine ⟨rfl, advance_moves (Moves.refl rfl rfl), passed_of_kept ready rfl rfl ?_ plain ?_⟩
    · simp [starts, isHash]
    · simp [Context.after, isHash, InContext]
  · rename_i noHash
    split
    · rename_i space
      refine ⟨rfl, advance_moves (Moves.refl rfl rfl), passed_of_kept ready rfl rfl ?_ plain ?_⟩
      · simp [starts, space]
      · simp [Context.after, noHash, space, InContext, white]
    · rename_i noSpace
      split
      · rename_i tokens
        cases added : parser.addItem allocations with
        | error stopped =>
          obtain ⟨rfl, refused⟩ := addItem_error added
          exact ⟨Moves.refl rfl rfl, refused⟩
        | ok next =>
          rw [addItem_ok added]
          refine ⟨rfl, advance_moves (Moves.refl rfl rfl), .started ?_ rfl rfl ?_⟩
          · simp [starts, tokens, noHash, noSpace]
          · exact ⟨ready.lower, advance_retake, rfl, ⟨_, rfl, ready.lower, le_refl _⟩,
              fun quoted => absurd rfl quoted⟩
      · rename_i names
        refine ⟨rfl, advance_moves (Moves.refl rfl rfl), passed_of_kept ready rfl rfl ?_ plain ?_⟩
        · simp [starts, names]
        · simp [Context.after, noHash, noSpace, InContext]

theorem inComment_turned (ready : Ready low .comment parser) :
    Turned format tokensOnly allocations low .comment ch parser
      (.ok (ch, (parser.inComment ch).advance format)) := by
  have comment : parser.state = .comment := ready.inContext
  have plain : ¬(ch = backslash ∧ Context.comment.escapes) := by simp [Context.escapes]
  have continues : starts tokensOnly ch .comment = false := by simp [starts]
  rw [Parser.inComment]
  split
  · rename_i ended
    refine ⟨rfl, advance_moves (Moves.refl rfl rfl),
      passed_of_kept ready rfl rfl continues plain ?_⟩
    simp [Context.after, ended, InContext]
  · rename_i inside
    refine ⟨rfl, advance_moves (Moves.refl rfl rfl),
      passed_of_kept ready rfl rfl continues plain ?_⟩
    simp [Context.after, inside, InContext, comment]

theorem endName_moves (lower : low ≤ parser.pos) :
    Moves low (parser.pos + format.width) parser (parser.endName format ch) := by
  have terminated : Moves low (parser.pos + format.width) parser (parser.terminate format) :=
    terminate_moves lower
  rw [Parser.endName]
  split
  · exact terminated.trans (Moves.refl rfl rfl)
  · exact terminated.trans (Moves.refl rfl rfl)

theorem endName_kept : (parser.endName format ch).pos = parser.pos ∧
    (parser.endName format ch).retake = parser.retake := by
  rw [Parser.endName]
  split
  · exact ⟨rfl, rfl⟩
  · exact ⟨rfl, rfl⟩

theorem inName_turned (ready : Ready low .name parser) :
    Turned format tokensOnly allocations low .name ch parser
      (((parser.inName format allocations ch).map (ch, ·)).map fun (left, next) =>
        (left, next.advance format)) := by
  have name : parser.state = .name := ready.inContext
  have plain : ¬(ch = backslash ∧ Context.name.escapes) := by simp [Context.escapes]
  have continues : starts tokensOnly ch .name = false := by simp [starts]
  rw [Parser.inName]
  split
  · rename_i ends
    have ended : Moves low (parser.pos + format.width) parser (parser.endName format ch) :=
      endName_moves ready.lower
    obtain ⟨samePos, sameRetake⟩ : (parser.endName format ch).pos = parser.pos ∧
      (parser.endName format ch).retake = parser.retake := endName_kept
    cases added : (parser.endName format ch).addItem allocations with
    | error stopped =>
      obtain ⟨rfl, refused⟩ := addItem_error added
      exact ⟨ended, refused⟩
    | ok next =>
      have nextEq := addItem_ok added
      subst nextEq
      refine ⟨rfl, advance_moves (ended.trans (Moves.refl rfl rfl)),
        passed_of_kept ready sameRetake samePos continues plain ?_⟩
      by_cases equals : ch = equalsSign
      · rw [Context.after, if_pos equals]
        have token : (parser.endName format ch).value = some (parser.pos + format.width) := by
          rw [Parser.endName, if_pos equals]
        have lower := ready.lower
        refine ⟨?_, ⟨_, advance_value.trans token, by omega, ?_⟩, fun quoted => absurd rfl quoted⟩
        · rw [advance_state]
          show (parser.endName format ch).state = .value
          rw [Parser.endName, if_pos equals]
        · apply le_advance_pos
          · exact sameRetake.trans ready.retake
          · exact Nat.add_le_add_right (le_of_eq samePos.symm) _
      · rw [Context.after, if_neg equals, if_pos (ends.resolve_left equals)]
        show (Parser.advance format _).state = .whiteSpace
        rw [advance_state]
        show (parser.endName format ch).state = .whiteSpace
        rw [Parser.endName, if_neg equals]
  · rename_i inside
    refine ⟨rfl, advance_moves (Moves.refl rfl rfl),
      passed_of_kept ready rfl rfl continues plain ?_⟩
    have noEquals : ch ≠ equalsSign := fun same => inside (.inl same)
    have noSpace : ¬(ocIsSpaceOrNull ch = true) := fun space => inside (.inr space)
    simp [Context.after, noEquals, noSpace, InContext, name]

theorem inShellExpansion_turned {quoting : Quoting}
    (ready : Ready low (.shellExpansion quoting) parser) :
    Turned format tokensOnly allocations low (.shellExpansion quoting) ch parser
      (.ok (ch, (parser.inShellExpansion ch).advance format)) := by
  obtain ⟨state, pushState, has⟩ := ready.inContext
  have plain : ¬(ch = backslash ∧ (Context.shellExpansion quoting).escapes) := by
    simp [Context.escapes]
  have continues : starts tokensOnly ch (.shellExpansion quoting) = false := by simp [starts]
  have further : ∀ after : Parser, after.pos = parser.pos → after.retake = parser.retake →
      parser.pos ≤ (after.advance format).pos := by
    intro after samePos sameRetake
    apply le_advance_pos (sameRetake.trans ready.retake)
    omega
  rw [Parser.inShellExpansion]
  split
  · rename_i ended
    refine ⟨rfl, advance_moves (Moves.refl rfl rfl),
      passed_of_kept ready rfl rfl continues plain ?_⟩
    rw [Context.after, if_pos ended]
    exact ⟨advance_state.trans pushState,
      has.advanced advance_value advance_quoteChar (further _ rfl rfl)⟩
  · rename_i inside
    refine ⟨rfl, advance_moves (Moves.refl rfl rfl),
      passed_of_kept ready rfl rfl continues plain ?_⟩
    rw [Context.after, if_neg inside]
    exact ⟨advance_state.trans state, advance_pushState.trans pushState,
      has.advanced advance_value advance_quoteChar (further _ rfl rfl)⟩

theorem shiftToken_spec {quoting : Quoting} (has : HasToken low quoting parser) :
    Moves low (parser.pos + format.width) parser (parser.shiftToken format) ∧
      ∃ token, (parser.shiftToken format) = { parser with
            memory := (parser.shiftToken format).memory
            accesses := (parser.shiftToken format).accesses
            value := some token } ∧ low ≤ token ∧ token ≤ parser.pos + format.width := by
  obtain ⟨token, value, lower, upper⟩ := has.token
  refine ⟨shiftToken_moves value lower upper, token + format.width, ?_, by omega, by omega⟩
  simp only [Parser.shiftToken, value, Parser.access]

theorem quoting_of_value {quoting : Quoting} (unquoted : quoting.state ≠ .quotedValue) :
    quoting = .unquoted := by
  cases quoting with
  | unquoted => rfl
  | single => exact absurd rfl unquoted
  | double => exact absurd rfl unquoted

theorem quoted_of_state {quoting : Quoting} (quoted : quoting.state = .quotedValue) :
    quoting ≠ .unquoted := by
  rintro rfl
  cases quoted

theorem open_turned (ready : Ready low (.value .unquoted) parser)
    (opens : ch = singleQuote ∨ ch = doubleQuote) :
    Turned format tokensOnly allocations low (.value .unquoted) ch parser
      (.ok (ch, { { parser with quoteChar := ch }.shiftToken format with
        state := .quotedValue }.advance format)) := by
  obtain ⟨state, has⟩ := ready.inContext
  have lower := ready.lower
  have continues : starts tokensOnly ch (.value .unquoted) = false := by simp [starts]
  have plain : ¬(ch = backslash ∧ (Context.value .unquoted).escapes) := by
    rintro ⟨rfl, -⟩
    cases opens with
    | inl single => cases single
    | inr double => cases double
  have before : HasToken low .unquoted { parser with quoteChar := ch } :=
    ⟨has.token, fun quoted => absurd rfl quoted⟩
  obtain ⟨moves, token, shifted, above, below⟩ : Moves low (parser.pos + format.width)
    { parser with quoteChar := ch } _ ∧ _ := shiftToken_spec before
  refine ⟨rfl, advance_moves (moves.congr rfl rfl rfl rfl), ?_⟩
  rw [shifted]
  refine passed_of_kept ready rfl rfl continues plain ?_
  have opened : (Context.value .unquoted).after ch =
      .value (if ch = singleQuote then .single else .double) := by
    rw [Context.after, afterValueChar]
    split
    · rfl
    · rename_i noSingle
      rw [if_pos (opens.resolve_left noSingle)]
  rw [opened]
  refine ⟨?_, ⟨token, advance_value, above, ?_⟩, fun _ => advance_quoteChar.trans ?_⟩
  · rw [advance_state]
    split <;> rfl
  · apply le_advance_pos
    · exact ready.retake
    · exact below
  · split
    · rename_i single
      exact single
    · rename_i noSingle
      exact opens.resolve_left noSingle

theorem close_turned {quoting : Quoting} (ready : Ready low (.value quoting) parser)
    (quoted : quoting ≠ .unquoted) (closes : ch = parser.quoteChar) :
    Turned format tokensOnly allocations low (.value quoting) ch parser
      (.ok (ch, { parser.shiftToken format with
        quoteChar := charNull
        state := .value }.advance format)) := by
  obtain ⟨state, has⟩ := ready.inContext
  have continues : starts tokensOnly ch (.value quoting) = false := by simp [starts]
  have closing : ch = quoting.char := closes.trans (has.quoteChar quoted)
  have plain : ¬(ch = backslash ∧ (Context.value quoting).escapes) := by
    rintro ⟨rfl, -⟩
    cases quoting <;> cases closing
  obtain ⟨moves, token, shifted, above, below⟩ : Moves low (parser.pos + format.width) parser _ ∧ _ :=
    shiftToken_spec has
  refine ⟨rfl, advance_moves (moves.congr rfl rfl rfl rfl), ?_⟩
  rw [shifted]
  refine passed_of_kept ready rfl rfl continues plain ?_
  have closed : (Context.value quoting).after ch = .value .unquoted := by
    cases quoting with
    | unquoted => exact absurd rfl quoted
    | single => rw [Context.after, afterValueChar, if_pos closing]; simp
    | double => rw [Context.after, afterValueChar, if_pos closing]; simp
  rw [closed]
  refine ⟨advance_state, ⟨token, advance_value, above, ?_⟩, fun quoted => absurd rfl quoted⟩
  apply le_advance_pos
  · exact ready.retake
  · exact below

theorem escape_turned {quoting : Quoting} (ready : Ready low (.value quoting) parser)
    (escape : (quoting.state ≠ .quotedValue ∨ parser.quoteChar = doubleQuote) ∧ ch = backslash) :
    Turned format tokensOnly allocations low (.value quoting) ch parser
      (.ok (ch, { (parser.access parser.pos format.width).shiftToken format with
        pos := parser.pos + format.width }.advance format)) := by
  obtain ⟨state, has⟩ := ready.inContext
  have escapes : (Context.value quoting).escapes := by
    cases quoting with
    | unquoted => rfl
    | single =>
      have quote := has.quoteChar (by decide)
      rw [quote] at escape
      exact absurd escape.1 (by decide)
    | double => rfl
  have before : HasToken low quoting (parser.access parser.pos format.width) :=
    ⟨has.token, has.quoteChar⟩
  obtain ⟨shifts, token, shifted, above, below⟩ : Moves low (parser.pos + format.width)
    (parser.access parser.pos format.width) _ ∧ _ := shiftToken_spec before
  have looked : Moves low (parser.pos + format.width) parser
      (parser.access parser.pos format.width) := access_moves ready.lower (le_refl _)
  have lower := ready.lower
  refine ⟨rfl, advance_moves ((looked.trans shifts).congr rfl rfl rfl rfl), ?_⟩
  rw [shifted]
  refine .escaped ⟨escape.2, escapes⟩ ?_ ⟨?_, advance_retake, advance_state.trans state,
    ⟨token, advance_value, above, ?_⟩, fun quoted => advance_quoteChar.trans (has.quoteChar quoted)⟩
  · rw [advance_pos]
    exact ready.retake
  · apply le_advance_pos
    · exact ready.retake
    · show low ≤ parser.pos + format.width + format.width
      omega
  · apply le_advance_pos
    · exact ready.retake
    · exact below.trans (Nat.le_add_right _ _)

theorem endValue_moves (lower : low ≤ parser.pos) :
    Moves low (parser.pos + format.width) parser (parser.endValue format) ∧
      (parser.endValue format).pos = parser.pos ∧
      (parser.endValue format).retake = parser.retake := by
  have terminated : Moves low (parser.pos + format.width) parser (parser.terminate format) :=
    terminate_moves lower
  rw [Parser.endValue]
  split
  · exact ⟨Moves.refl rfl rfl, rfl, rfl⟩
  · split
    · exact ⟨Moves.refl rfl rfl, rfl, rfl⟩
    · exact ⟨terminated.congr rfl rfl rfl rfl, rfl, rfl⟩

theorem afterValueChar_of_plain {quoting : Quoting}
    (unopened : ¬(quoting.state ≠ .quotedValue ∧ (ch = singleQuote ∨ ch = doubleQuote)))
    (unclosed : quoting ≠ .unquoted → ch ≠ quoting.char) :
    afterValueChar ch quoting = if ch = backquote then .shellExpansion quoting
      else if quoting = .unquoted ∧ ocIsSpaceOrNull ch then .whiteSpace
      else .value quoting := by
  cases quoting with
  | unquoted =>
    have noQuote : ¬(ch = singleQuote ∨ ch = doubleQuote) :=
      fun quote => unopened ⟨by decide, quote⟩
    rw [afterValueChar, if_neg fun single => noQuote (.inl single),
      if_neg fun double => noQuote (.inr double)]
    simp
  | single => simp [afterValueChar, unclosed]
  | double => simp [afterValueChar, unclosed]

theorem inValue_turned {quoting : Quoting} (ready : Ready low (.value quoting) parser)
    (found : charAt format parser.memory parser.pos = ch) :
    Turned format tokensOnly allocations low (.value quoting) ch parser
      (.ok ((parser.inValue format ch).1, (parser.inValue format ch).2.advance format)) := by
  obtain ⟨state, has⟩ := ready.inContext
  have continues : starts tokensOnly ch (.value quoting) = false := by simp [starts]
  have lower := ready.lower
  rw [Parser.inValue]
  split
  · rename_i opens
    rw [state] at opens
    obtain rfl := quoting_of_value opens.1
    exact open_turned ready opens.2
  · rename_i unopened
    rw [state] at unopened
    split
    · rename_i closes
      rw [state] at closes
      exact close_turned ready (quoted_of_state closes.1) closes.2
    · rename_i unclosed
      rw [state] at unclosed
      have noClose : quoting ≠ .unquoted → ch ≠ quoting.char := by
        intro quoted same
        refine unclosed ⟨?_, same.trans (has.quoteChar quoted).symm⟩
        cases quoting with
        | unquoted => exact absurd rfl quoted
        | single => rfl
        | double => rfl
      have following := afterValueChar_of_plain unopened noClose
      split
      · rename_i escape
        -- Read from the old cursor, the next character is the backslash itself.
        have again : charAt format parser.memory parser.pos = backslash := found.trans escape.2
        simp only [again, true_or, or_true, if_true]
        rw [state] at escape
        have escaped : Turned format tokensOnly allocations _ _ _ _ _ := escape_turned ready escape
        rwa [escape.2] at escaped ⊢
      · rename_i noEscape
        rw [state] at noEscape
        have plain : ¬(ch = backslash ∧ (Context.value quoting).escapes) := by
          rintro ⟨isBackslash, escapes⟩
          refine noEscape ⟨?_, isBackslash⟩
          cases quoting with
          | unquoted => exact .inl (by decide)
          | single => cases escapes
          | double => exact .inr (has.quoteChar (by decide))
        split
        · rename_i expands
          refine ⟨rfl, advance_moves (Moves.refl rfl rfl),
            passed_of_kept ready rfl rfl continues plain ?_⟩
          rw [Context.after, following, if_pos expands]
          refine ⟨advance_state, advance_pushState.trans state,
            has.advanced advance_value advance_quoteChar (le_advance_pos ready.retake ?_)⟩
          exact Nat.le_add_right _ _
        · rename_i noExpansion
          split
          · rename_i ends
            obtain ⟨moves, samePos, sameRetake⟩ : Moves low (parser.pos + format.width) parser _ ∧ _ :=
              endValue_moves ready.lower
            refine ⟨rfl, advance_moves moves,
              passed_of_kept ready sameRetake samePos continues plain ?_⟩
            have unquoted : quoting = .unquoted :=
              quoting_of_value (by rw [← state, ends.1]; decide)
            rw [Context.after, following, if_neg noExpansion, if_pos ⟨unquoted, ends.2⟩]
            exact advance_state
          · rename_i goesOn
            refine ⟨rfl, advance_moves (Moves.refl rfl rfl),
              passed_of_kept ready rfl rfl continues plain ?_⟩
            have stays : ¬(quoting = .unquoted ∧ ocIsSpaceOrNull ch) := by
              rintro ⟨rfl, space⟩
              exact goesOn ⟨state, space⟩
            rw [Context.after, following, if_neg noExpansion, if_neg stays]
            refine ⟨advance_state.trans state,
              has.advanced advance_value advance_quoteChar (le_advance_pos ready.retake ?_)⟩
            exact Nat.le_add_right _ _

theorem Turned.of_access {result : Except Parser (Nat × Parser)} (lower : low ≤ parser.pos)
    (turned : Turned format tokensOnly allocations low ctx ch
      (parser.access parser.pos format.width) result) :
    Turned format tokensOnly allocations low ctx ch parser result := by
  have read : Moves low (parser.pos + format.width) parser
      (parser.access parser.pos format.width) := access_moves lower (le_refl _)
  cases result with
  | error stopped => exact ⟨read.trans turned.1, turned.2⟩
  | ok next =>
    obtain ⟨same, moves, passed⟩ := turned
    refine ⟨same, read.trans moves, ?_⟩
    cases passed with
    | started begins pos memory ready => exact .started begins pos memory ready
    | escaped escape pos ready => exact .escaped escape pos ready
    | passed continues plain pos ready => exact .passed continues plain pos ready

theorem Ready.accessed {address size : Nat} (ready : Ready low ctx parser) :
    Ready low ctx (parser.access address size) := by
  refine ⟨ready.lower, ready.retake, ?_⟩
  cases ctx with
  | value quoting => exact ⟨ready.inContext.1, ready.inContext.2.token, ready.inContext.2.quoteChar⟩
  | shellExpansion quoting =>
    obtain ⟨state, pushState, has⟩ := ready.inContext
    exact ⟨state, pushState, has.token, has.quoteChar⟩
  | _ => exact ready.inContext

theorem turn_turned_of_access (ready : Ready low ctx parser)
    (found : charAt format parser.memory parser.pos = ch) :
    Turned format tokensOnly allocations low ctx ch (parser.access parser.pos format.width)
      (parser.turn format tokensOnly allocations) := by
  have accessed : Ready low ctx (parser.access parser.pos format.width) := ready.accessed
  rw [Parser.turn, found, Parser.inState]
  cases ctx with
  | whiteSpace =>
    rw [show Parser.state _ = _ from accessed.inContext]
    exact inWhiteSpace_turned accessed
  | comment =>
    rw [show Parser.state _ = _ from accessed.inContext]
    exact inComment_turned accessed
  | name =>
    rw [show Parser.state _ = _ from accessed.inContext]
    exact inName_turned accessed
  | value quoting =>
    rw [accessed.inContext.1]
    cases quoting <;> exact inValue_turned accessed found
  | shellExpansion quoting =>
    rw [accessed.inContext.1]
    exact inShellExpansion_turned accessed

theorem turn_turned (ready : Ready low ctx parser)
    (found : charAt format parser.memory parser.pos = ch) :
    Turned format tokensOnly allocations low ctx ch parser
      (parser.turn format tokensOnly allocations) :=
  (turn_turned_of_access ready found).of_access ready.lower

end Turns

end OpenCore.ParseVarsTurns
