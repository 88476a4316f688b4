import Mathlib.Data.List.Forall2
import Mathlib.Data.List.ModifyLast
import OpenCore.ParseVarsValues

/-!
`OcParseVars` against the grammar of variable texts. The strings of the variables before the
cursor are settled: the parser only writes behind them.
-/

namespace OpenCore.ParseVarsPairs

open AddressSpace ParseVars ParseVarsTurns ParseVarsGrammar ParseVarsValues List

variable {format : StringFormat} {tokensOnly : Bool}

section Settling
variable {memory other : Memory} {limit high : Nat} {var : ParsedVar} {pair : Pair}

def Settled (format : StringFormat) (memory : Memory) (limit : Nat) (var : ParsedVar)
    (pair : Pair) : Prop :=
  ∀ other : Memory, (∀ place, place < limit → other place = memory place) →
    ShownPair format other var pair

theorem Settled.mono (settled : Settled format memory limit var pair) (bound : limit ≤ high)
    (same : ∀ place, place < limit → other place = memory place) :
    Settled format other high var pair := by
  intro later agrees
  apply settled
  intro place below
  rw [agrees place (by omega), same place below]

theorem settled_all {vars : List ParsedVar} {pairs : List Pair}
    (settled : Forall₂ (Settled format memory limit) vars pairs) (bound : limit ≤ high)
    (same : ∀ place, place < limit → other place = memory place) :
    Forall₂ (Settled format other high) vars pairs :=
  settled.imp fun _ _ each => each.mono bound same

theorem settled_string {address : Nat} {chars : List Nat}
    (segment : Segment format memory address chars limit)
    (agrees : ∀ place, place < limit + format.width →
      other place = store memory format.width limit charNull place) :
    Shown format other (some address) (some chars) := by
  have same : Segment format other address chars limit := by
    apply segment.congr
    intro place _ below
    rw [agrees place (by omega)]
    exact if_neg (by omega)
  refine .present (same.stored ?_)
  · have zero : charAt format (store memory format.width limit charNull) limit = charNull := by
      rw [charAt, load_store]
      exact Nat.zero_mod _
    rw [← zero]
    exact load_congr fun place _ below => agrees place below

end Settling

section Ends
variable {done : List Pair} {text next : List Nat} {parser before after : Parser} {ch : Nat}
variable {pairs : Option (List Pair)}

structure Idle (format : StringFormat) (state : ParseVarsState) (done : List Pair)
    (parser : Parser) : Prop where
  state : parser.state = state
  pushState : parser.pushState = .whiteSpace
  retake : parser.retake = false
  settled : Forall₂ (Settled format parser.memory parser.pos) parser.parsedVars done

structure IdleAt (format : StringFormat) (state : ParseVarsState) (done : List Pair)
    (text : List Nat) (parser : Parser) : Prop extends Idle format state done parser where
  text : Stored format parser.memory parser.pos text

def Ran (format : StringFormat) (tokensOnly : Bool) (parser : Parser) (pairs : Option (List Pair)) :
    Prop :=
  ∃ fuel outcome, parser.run format tokensOnly granted fuel = some outcome ∧
    Shows format outcome pairs

theorem ran_of_leads (leads : Leads format tokensOnly before after)
    (ran : Ran format tokensOnly after pairs) : Ran format tokensOnly before pairs := by
  obtain ⟨fuel, outcome, returned, shows_⟩ := ran
  obtain ⟨more, returned⟩ := leads fuel outcome returned
  exact ⟨more, outcome, returned, shows_⟩

theorem ran_of_last (turned : before.turn format tokensOnly granted = .ok (charNull, after))
    (concluded : Shows format after.conclude pairs) : Ran format tokensOnly before pairs := by
  refine ⟨1, after.conclude, ?_, concluded⟩
  rw [Parser.run, turned]
  rfl

theorem conclude_shows (idle : Idle format .whiteSpace done parser) :
    Shows format parser.conclude (some done) := by
  have settled := idle.settled
  have quiet : ¬(parser.state ≠ .whiteSpace ∨ parser.pushState ≠ .whiteSpace) := by
    rw [idle.state, idle.pushState]
    decide
  rw [Parser.conclude, if_neg quiet]
  cases done with
  | nil =>
    have none : parser.parsedVars = [] := List.forall₂_nil_right_iff.mp settled
    rw [none]
    rfl
  | cons pair done =>
    have some : parser.parsedVars.isEmpty = false := by
      cases vars : parser.parsedVars with
      | nil =>
        rw [vars] at settled
        cases settled
      | cons var vars => rfl
    rw [some]
    exact ⟨rfl, settled.imp fun _ _ each => each _ fun _ _ => rfl⟩

theorem reads_nil {vars : List Variable} {inComment : Bool} (reads : Reads tokensOnly [] vars inComment) :
    vars = [] ∧ inComment = false := by
  generalize empty : ([] : List Nat) = text at reads
  cases reads with
  | nil => exact ⟨rfl, rfl⟩
  | name named valid delimited behind =>
    obtain ⟨rfl, rfl⟩ := append_eq_nil_iff.mp empty.symm
    cases valid
  | missing named valid delimited behind => simp at empty
  | assigned named valid present value delimited behind => simp at empty
  | _ => cases empty

theorem width_pos (format : StringFormat) : 0 < format.width := by
  cases format with
  | ascii => exact Nat.one_pos
  | unicode => exact Nat.two_pos

def pairsOf (inComment : Bool) (done : List Pair) (vars : List Variable) : Option (List Pair) :=
  if inComment then none else some (done ++ vars.map Variable.strippedPair)

theorem pairsOf_cons (inComment : Bool) (var : Variable) (vars : List Variable) :
    pairsOf inComment done (var :: vars) = pairsOf inComment (done ++ [var.strippedPair]) vars := by
  rw [pairsOf, pairsOf, map_cons, append_assoc, singleton_append]

theorem ran_of_delimited {rest : List Nat} {vars : List Variable} {inComment : Bool}
    (turned : before.turn format tokensOnly granted = .ok (rest.headD charNull, after))
    (idle : Idle format .whiteSpace done after) (delimited : Delimited rest next)
    (stored : Stored format before.memory before.pos rest)
    (pos : after.pos = before.pos + format.width)
    (behind : ∀ place, before.pos + format.width ≤ place → after.memory place = before.memory place)
    (reads : Reads tokensOnly next vars inComment)
    (goesOn : ∀ parser : Parser, IdleAt format .whiteSpace done next parser →
      Ran format tokensOnly parser (pairsOf inComment done vars)) :
    Ran format tokensOnly before (pairsOf inComment done vars) := by
  cases delimited with
  | atEnd =>
    obtain ⟨rfl, rfl⟩ := reads_nil reads
    rw [pairsOf, map_nil, append_nil]
    exact ran_of_last turned (conclude_shows idle)
  | atBlank blank =>
    obtain ⟨-, nonzero, text⟩ := stored
    refine ran_of_leads (leads_of_turn turned nonzero) (goesOn after ⟨idle, ?_⟩)
    rw [pos]
    exact text.congr behind

end Ends

section Turns
variable {done : List Pair} {text : List Nat} {before after parser : Parser} {ch : Nat}
  {state following : ParseVarsState}

theorem IdleAt.passed (idle : IdleAt format state done (ch :: text) before)
    (entered : after.state = following) (pushState : after.pushState = before.pushState)
    (retake : after.retake = before.retake) (pos : after.pos = before.pos)
    (memory : after.memory = before.memory) (parsedVars : after.parsedVars = before.parsedVars) :
    IdleAt format following done text (after.advance format) := by
  have unset := retake.trans idle.retake
  have stored := idle.text.2.2
  have settled : Forall₂ (Settled format before.memory (before.pos + format.width))
      before.parsedVars done := settled_all idle.settled (Nat.le_add_right _ _) fun _ _ => rfl
  rw [← pos, ← memory] at stored settled
  rw [← parsedVars] at settled
  rw [advance_of_unset unset]
  exact ⟨⟨entered, pushState.trans idle.pushState, unset, settled⟩, stored⟩

theorem turn_of_idle (idle : IdleAt format state done (ch :: text) before) :
    before.turn format tokensOnly granted =
      ((before.access before.pos format.width).inState format tokensOnly granted ch).map
        fun (ch, parser) => (ch, parser.advance format) := by
  rw [Parser.turn, idle.text.1]

theorem space_or_null (space : ocIsSpace ch = true) : ocIsSpaceOrNull ch = true := by
  rw [ocIsSpaceOrNull, space, Bool.or_true]

theorem not_space_or_null (nonzero : ch ≠ charNull) (unblank : ocIsSpace ch = false) :
    ¬ ocIsSpaceOrNull ch = true := by
  rw [ocIsSpaceOrNull, beq_false_of_ne nonzero, unblank]
  decide

theorem space_ne_hash (space : ocIsSpace ch = true) : ch ≠ hash := by
  rintro rfl
  cases space

theorem space_turn (space : ocIsSpace ch = true)
    (idle : IdleAt format .whiteSpace done (ch :: text) before) :
    ∃ after, Leads format tokensOnly before after ∧ IdleAt format .whiteSpace done text after := by
  have turned : before.turn format tokensOnly granted = _ := turn_of_idle idle
  have state : (before.access before.pos format.width).state = .whiteSpace := idle.state
  rw [Parser.inState, state] at turned
  dsimp only at turned
  rw [Parser.inWhiteSpace, if_neg (space_ne_hash space), if_pos (space_or_null space)] at turned
  exact ⟨_, leads_of_turn turned idle.text.2.1, idle.passed idle.state rfl rfl rfl rfl rfl⟩

theorem hash_turn (idle : IdleAt format .whiteSpace done (hash :: text) before) :
    ∃ after, Leads format tokensOnly before after ∧ IdleAt format .comment done text after := by
  have turned : before.turn format tokensOnly granted = _ := turn_of_idle idle
  have state : (before.access before.pos format.width).state = .whiteSpace := idle.state
  rw [Parser.inState, state] at turned
  dsimp only at turned
  rw [Parser.inWhiteSpace, if_pos rfl] at turned
  exact ⟨_, leads_of_turn turned idle.text.2.1, idle.passed rfl rfl rfl rfl rfl rfl⟩

theorem comment_turn (idle : IdleAt format .comment done (ch :: text) before) :
    ∃ after, Leads format tokensOnly before after ∧
      IdleAt format (if ch = lineFeed then .whiteSpace else .comment) done text after := by
  have turned : before.turn format tokensOnly granted = _ := turn_of_idle idle
  have state : (before.access before.pos format.width).state = .comment := idle.state
  rw [Parser.inState, state] at turned
  dsimp only at turned
  rw [Parser.inComment] at turned
  split at turned
  · rename_i ends
    rw [if_pos ends]
    exact ⟨_, leads_of_turn turned idle.text.2.1, idle.passed rfl rfl rfl rfl rfl rfl⟩
  · rename_i goesOn
    rw [if_neg goesOn]
    exact ⟨_, leads_of_turn turned idle.text.2.1, idle.passed idle.state rfl rfl rfl rfl rfl⟩

theorem line_read {line : List Nat} (within : ∀ ch ∈ line, ch ≠ lineFeed)
    (idle : IdleAt format .comment done (line ++ text) before) :
    ∃ after, Leads format tokensOnly before after ∧ IdleAt format .comment done text after := by
  induction line generalizing before with
  | nil => exact ⟨before, Leads.refl, idle⟩
  | cons ch line ih =>
    obtain ⟨middle, first, reached⟩ := comment_turn idle
    rw [if_neg (within ch mem_cons_self)] at reached
    obtain ⟨after, rest, idleAfter⟩ := ih (fun other member =>
      within other (mem_cons_of_mem _ member)) reached
    exact ⟨after, first.trans rest, idleAfter⟩

theorem comment_ran (idle : IdleAt format .comment done [] before) :
    Ran format tokensOnly before none := by
  have found : charAt format before.memory before.pos = charNull := idle.text
  have state : (before.access before.pos format.width).state = .comment := idle.state
  have turned : before.turn format tokensOnly granted =
      .ok (charNull, (before.access before.pos format.width).advance format) := by
    rw [Parser.turn, found, Parser.inState, state]
    rfl
  refine ran_of_last turned ?_
  have unfinished : ((before.access before.pos format.width).advance format).state ≠
      .whiteSpace := by
    rw [advance_state, state]
    decide
  rw [Parser.conclude, if_pos (.inl unfinished)]
  rfl

end Turns

section Values
variable {done : List Pair} {text rest next chars : List Nat} {before after parser : Parser}
  {ch base : Nat} {name : Option (List Nat)}

structure Assigning (format : StringFormat) (base : Nat) (done : List Pair) (name : Option (List Nat))
    (parser : Parser) : Prop where
  originalValue : parser.originalValue = some base
  vars : ∃ vars var, parser.parsedVars = vars ++ [var] ∧
    Forall₂ (Settled format parser.memory base) vars done ∧
    Settled format parser.memory base var ⟨name, none⟩

theorem Assigning.took {count : Nat} {expanded : Bool} (assigning : Assigning format base done name before)
    (took : Took format tokensOnly base count expanded before after) :
    Assigning format base done name after := by
  obtain ⟨vars, var, added, settled, current⟩ := assigning.vars
  refine ⟨took.originalValue.trans assigning.originalValue, vars, var,
    took.parsedVars.trans added, ?_, ?_⟩
  · exact settled_all settled (le_refl _) took.below
  · exact current.mono (le_refl _) took.below

theorem space_or_null_cases (blank : ocIsSpaceOrNull ch = true) :
    ch ≠ singleQuote ∧ ch ≠ doubleQuote ∧ ch ≠ backslash ∧ ch ≠ backquote ∧ ch ≠ equalsSign := by
  refine ⟨?_, ?_, ?_, ?_, ?_⟩
  all_goals
    rintro rfl
    cases blank

theorem delimited_blank (delimited : Delimited rest next) :
    ocIsSpaceOrNull (rest.headD charNull) = true := by
  cases delimited with
  | atEnd => rfl
  | atBlank blank => exact space_or_null blank

theorem stored_head (stored : Stored format parser.memory parser.pos rest) :
    charAt format parser.memory parser.pos = rest.headD charNull := by
  cases rest with
  | nil => exact stored
  | cons ch rest => exact stored.1

theorem turn_of_stored (stored : Stored format before.memory before.pos rest) :
    before.turn format tokensOnly granted =
      ((before.access before.pos format.width).inState format tokensOnly granted
        (rest.headD charNull)).map fun (ch, parser) => (ch, parser.advance format) := by
  rw [Parser.turn, stored_head stored]

theorem inValue_blank (state : parser.state = .value) (blank : ocIsSpaceOrNull ch = true) :
    parser.inValue format ch = (ch, parser.endValue format) := by
  obtain ⟨unsingle, undouble, unescaped, unexpanded, -⟩ := space_or_null_cases blank
  rw [Parser.inValue, state]
  rw [if_neg fun opens => opens.2.elim unsingle undouble, if_neg fun closes => absurd closes.1 (by decide),
    if_neg fun escape => unescaped escape.2, if_neg unexpanded, if_pos ⟨rfl, blank⟩]

theorem endValue_unread (unread : some parser.pos = parser.originalValue) :
    parser.endValue format =
      { parser with value := none, originalValue := none, state := .whiteSpace } := by
  simp only [Parser.endValue, if_pos unread]

theorem endValue_cancelled (read : some parser.pos ≠ parser.originalValue)
    (pushed : parser.pushState ≠ .whiteSpace) :
    parser.endValue format = { parser with
        value := none
        originalValue := none
        pushState := .whiteSpace
        state := .whiteSpace } := by
  simp only [Parser.endValue, if_neg read, if_pos pushed]

theorem endValue_kept (read : some parser.pos ≠ parser.originalValue)
    (unpushed : ¬ parser.pushState ≠ .whiteSpace) :
    parser.endValue format = { parser.access parser.pos format.width with
        memory := store parser.memory format.width parser.pos charNull
        parsedVars := parser.parsedVars.modifyLast fun option =>
          { option with value := parser.value }
        value := none
        originalValue := none
        state := .whiteSpace } := by
  simp only [Parser.endValue, if_neg read, if_neg unpushed]
  rfl

/-- The value of a pair at the end of its text: missing if nothing was read, or if there
was a shell expansion. -/
theorem end_turn {expanded : Bool} (assigning : Assigning format base done name before)
    (inValue : InValue format base .unquoted chars rest before)
    (pushState : before.pushState ≠ .whiteSpace ↔ expanded)
    (unread : before.pos = base → expanded = false)
    (blank : ocIsSpaceOrNull (rest.headD charNull) = true) :
    ∃ after, before.turn format tokensOnly granted = .ok (rest.headD charNull, after) ∧
      Idle format .whiteSpace (done ++ [⟨name,
        if before.pos = base ∨ expanded then none else some chars⟩]) after ∧
      after.pos = before.pos + format.width ∧
      ∀ place, before.pos + format.width ≤ place → after.memory place = before.memory place := by
  have turned : before.turn format tokensOnly granted = .ok (rest.headD charNull,
      ((before.access before.pos format.width).endValue format).advance format) := by
    have state : (before.access before.pos format.width).state = .value := inValue.state
    rw [Parser.turn, stored_head inValue.text, Parser.inState, state]
    dsimp only
    rw [inValue_blank state blank]
    rfl
  obtain ⟨token, value, lower, segment⟩ := inValue.token
  obtain ⟨vars, var, added, early, present⟩ := assigning.vars
  have bound : base ≤ before.pos := lower.trans segment.le
  have settled : Forall₂ (Settled format before.memory (before.pos + format.width)) vars done :=
    settled_all early (by omega) fun _ _ => rfl
  have current : Settled format before.memory (before.pos + format.width) var ⟨name, none⟩ :=
    present.mono (by omega) fun _ _ => rfl
  have all : Forall₂ (Settled format before.memory (before.pos + format.width))
      (vars ++ [var]) (done ++ [⟨name, none⟩]) := rel_append settled (.cons current .nil)
  rw [← added] at all
  refine ⟨_, turned, ?_⟩
  have original : (before.access before.pos format.width).originalValue = some base :=
    assigning.originalValue
  by_cases same : before.pos = base
  · have quiet : before.pushState = .whiteSpace := by
      by_contra pushed
      rw [unread same] at pushState
      exact Bool.false_ne_true (pushState.mp pushed)
    have ended : (before.access before.pos format.width).endValue format = _ :=
      endValue_unread ((congrArg some same).trans original.symm)
    rw [if_pos (.inl same), ended, advance_of_unset (by exact inValue.retake)]
    exact ⟨⟨rfl, quiet, inValue.retake, all⟩, rfl, fun _ _ => rfl⟩
  · have moved : some (before.access before.pos format.width).pos ≠
        (before.access before.pos format.width).originalValue :=
      fun equal => same (Option.some.inj (equal.trans original))
    by_cases pushed : before.pushState ≠ .whiteSpace
    · have ended : (before.access before.pos format.width).endValue format = _ :=
        endValue_cancelled moved pushed
      rw [if_pos (.inr (pushState.mp pushed)), ended, advance_of_unset (by exact inValue.retake)]
      exact ⟨⟨rfl, rfl, inValue.retake, all⟩, rfl, fun _ _ => rfl⟩
    · have unread : ¬(before.pos = base ∨ expanded = true) := by
        rintro (equal | expands)
        · exact same equal
        · exact pushed (pushState.mpr expands)
      have ended : (before.access before.pos format.width).endValue format = _ :=
        endValue_kept moved pushed
      rw [if_neg unread, ended, advance_of_unset (by exact inValue.retake)]
      refine ⟨⟨rfl, not_not.mp pushed, inValue.retake, ?_⟩, rfl,
        fun place above => if_neg (not_lt.mpr above ∘ And.right)⟩
      have kept : ∀ place, place < base → (store before.memory format.width before.pos charNull)
          place = before.memory place := fun place below => if_neg (by omega)
      have option : (before.parsedVars.modifyLast fun option =>
          { option with value := before.value }) = vars ++ [{ var with value := before.value }] := by
        rw [added, modifyLast_concat]
      have stored : Forall₂ (Settled format (store before.memory format.width before.pos charNull)
          (before.pos + format.width)) (vars ++ [{ var with value := before.value }])
          (done ++ [⟨name, some chars⟩]) := by
        refine rel_append (settled_all early (by omega) kept) (.cons ?_ .nil)
        intro other agrees
        refine ⟨(present other ?_).name, ?_⟩
        · intro place below
          rw [agrees place (by omega), kept place below]
        · rw [value]
          exact settled_string segment agrees
      rw [← option] at stored
      exact stored

variable {reading : ParseVarsGrammar.Reading}

theorem value_le {quoting : Quoting}
    (value : Value quoting text reading rest) : rest.length ≤ text.length := by
  induction value with
  | ends rest delimited => exact le_refl _
  | _ => simp only [length_cons, length_append]; omega

theorem value_shorter (present : ocIsSpace ch = false)
    (value : Value .unquoted (ch :: text) reading rest) : rest.length < (ch :: text).length := by
  generalize all : ch :: text = whole at value
  cases value with
  | ends rest delimited =>
    rw [← all] at delimited
    rw [delimited ch rfl] at present
    cases present
  | opens quoted inside => exact Nat.lt_succ_of_le (value_le inside)
  | closes quoted outside => exact absurd rfl quoted
  | escapes literal behind => exact Nat.lt_succ_of_lt (Nat.lt_succ_of_le (value_le behind))
  | expands plain within behind =>
    have bound := value_le behind
    simp only [length_cons, length_append]
    omega
  | plain unsingle stands behind => exact Nat.lt_succ_of_le (value_le behind)

structure Begun (format : StringFormat) (done : List Pair) (name : Option (List Nat))
    (text : List Nat) (parser : Parser) : Prop
    extends Assigning format parser.pos done name parser where
  inValue : InValue format parser.pos .unquoted [] text parser
  pushState : parser.pushState = .whiteSpace

section Following
variable {vars : List Variable} {inComment : Bool}
  (reads : Reads tokensOnly next vars inComment)
  (goesOn : ∀ done parser, IdleAt format .whiteSpace done next parser →
    Ran format tokensOnly parser (pairsOf inComment done vars))
include reads goesOn

theorem missing_ran (begun : Begun format done name rest before) (delimited : Delimited rest next) :
    Ran format tokensOnly before (pairsOf inComment done (⟨name, none⟩ :: vars)) := by
  have pushed : before.pushState ≠ .whiteSpace ↔ false = true :=
    iff_of_false (not_not.mpr begun.pushState) Bool.false_ne_true
  obtain ⟨after, turned, idle, pos, behind⟩ := end_turn begun.toAssigning begun.inValue pushed
    (fun _ => rfl) (delimited_blank delimited)
  rw [if_pos (.inl rfl)] at idle
  rw [pairsOf_cons]
  exact ran_of_delimited turned idle delimited begun.inValue.text pos behind reads (goesOn _)

theorem assigned_ran {reading : ParseVarsGrammar.Reading} (visible : reading.hidden = false)
    (begun : Begun format done name (ch :: text) before) (present : ocIsSpace ch = false)
    (value : Value .unquoted (ch :: text) reading rest) (delimited : Delimited rest next) :
    Ran format tokensOnly before (pairsOf inComment done (⟨name, some reading⟩ :: vars)) := by
  obtain ⟨count, ended, counted, took, inValue⟩ :
    ∃ count after, _ ∧ Took format tokensOnly _ count _ _ after ∧ _ :=
      value_read value visible begun.inValue
  have shorter := value_shorter present value
  have moved : ended.pos ≠ before.pos := by
    have read : 0 < format.width * count := Nat.mul_pos (width_pos format) (by omega)
    rw [took.pos]
    omega
  have pushed : ended.pushState ≠ .whiteSpace ↔ reading.expanded = true :=
    took.pushState.trans (or_iff_right (not_not.mpr begun.pushState))
  obtain ⟨after, turned, idle, pos, behind⟩ := end_turn (begun.toAssigning.took took) inValue pushed
    (fun same => absurd same moved) (delimited_blank delimited)
  have pair : (⟨name, some reading⟩ : Variable).strippedPair =
      ⟨name, if ended.pos = before.pos ∨ reading.expanded then none else some reading.stripped⟩ := by
    rw [Variable.strippedPair]
    cases expanded : reading.expanded with
    | false => simp [Option.filter, expanded, moved]
    | true => simp [Option.filter, expanded]
  rw [nil_append] at idle
  rw [pairsOf_cons, pair]
  exact ran_of_leads took.leads
    (ran_of_delimited turned idle delimited inValue.text pos behind reads (goesOn _))

end Following

end Values

section Names
variable {done : List Pair} {text rest chars : List Nat} {before after parser : Parser}
  {ch base : Nat}

structure InName (format : StringFormat) (done : List Pair) (base : Nat) (chars text : List Nat)
    (parser : Parser) : Prop extends IdleAt format .name done text parser where
  name : parser.name = some base
  segment : Segment format parser.memory base chars parser.pos

theorem name_begins (unhash : ch ≠ hash) (unblank : ocIsSpace ch = false)
    (idle : IdleAt format .whiteSpace done (ch :: text) before) :
    ∃ after, Leads format false before after ∧ InName format done before.pos [ch] text after := by
  have turned : before.turn format false granted = _ := turn_of_idle idle
  have state : (before.access before.pos format.width).state = .whiteSpace := idle.state
  rw [Parser.inState, state] at turned
  dsimp only at turned
  rw [Parser.inWhiteSpace, if_neg unhash, if_neg (not_space_or_null idle.text.2.1 unblank),
    if_neg Bool.false_ne_true] at turned
  refine ⟨_, leads_of_turn turned idle.text.2.1, idle.passed rfl rfl rfl rfl rfl rfl, ?_, ?_⟩
  · rw [advance_of_unset (by exact idle.retake)]
    rfl
  · rw [advance_of_unset (by exact idle.retake)]
    exact ⟨idle.text.1, idle.text.2.1, rfl⟩

theorem name_turn (inside : ch ≠ equalsSign) (unblank : ocIsSpace ch = false)
    (inName : InName format done base chars (ch :: text) before) :
    ∃ after, Leads format false before after ∧
      InName format done base (chars ++ [ch]) text after := by
  have nonzero := inName.text.2.1
  have turned : before.turn format false granted = _ := turn_of_idle inName.toIdleAt
  have state : (before.access before.pos format.width).state = .name := inName.state
  have goesOn : ¬(ch = equalsSign ∨ ocIsSpaceOrNull ch = true) := by
    rintro (equals | blank)
    · exact inside equals
    · exact not_space_or_null nonzero unblank blank
  rw [Parser.inState, state] at turned
  dsimp only at turned
  rw [Parser.inName, if_neg goesOn] at turned
  refine ⟨_, leads_of_turn turned nonzero, inName.passed inName.state rfl rfl rfl rfl rfl, ?_, ?_⟩
  · rw [advance_of_unset (by exact inName.retake)]
    exact inName.name
  · rw [advance_of_unset (by exact inName.retake)]
    exact inName.segment.snoc inName.text.1 nonzero

theorem name_goes_on {name : List Nat}
    (inside : name.all (fun ch => ch != equalsSign && !ocIsSpace ch) = true)
    (inName : InName format done base chars (name ++ rest) before) :
    ∃ after, Leads format false before after ∧
      InName format done base (chars ++ name) rest after := by
  induction name generalizing before chars with
  | nil =>
    rw [append_nil]
    exact ⟨before, Leads.refl, inName⟩
  | cons ch name ih =>
    simp only [all_cons, Bool.and_eq_true, bne_iff_ne, Bool.not_eq_true'] at inside
    obtain ⟨⟨unequal, unblank⟩, others⟩ := inside
    obtain ⟨middle, first, named⟩ := name_turn unequal unblank inName
    obtain ⟨after, more, ended⟩ := ih (by simpa using others) named
    refine ⟨after, first.trans more, ?_⟩
    rwa [append_assoc, singleton_append] at ended

theorem name_read {name : List Nat} (valid : isName name)
    (idle : IdleAt format .whiteSpace done (name ++ rest) before) :
    ∃ after, Leads format false before after ∧ InName format done before.pos name rest after := by
  cases name with
  | nil => cases valid
  | cons ch name =>
    simp only [isName, Bool.and_eq_true, bne_iff_ne, Bool.not_eq_true'] at valid
    obtain ⟨⟨unhash, unblank⟩, others⟩ := valid
    obtain ⟨middle, first, named⟩ := name_begins unhash unblank idle
    obtain ⟨after, more, ended⟩ := name_goes_on others named
    exact ⟨after, first.trans more, ended⟩

theorem addItem_granted : parser.addItem granted =
    .ok { parser with parsedVars := parser.parsedVars ++ [⟨none, none⟩] } := if_pos rfl

theorem inName_ends (ends : ch = equalsSign ∨ ocIsSpaceOrNull ch = true) :
    parser.inName format granted ch = .ok { parser.endName format ch with
        parsedVars := parser.parsedVars ++ [⟨parser.name, none⟩]
        name := none } := by
  have kept : (parser.endName format ch).parsedVars = parser.parsedVars ∧
      (parser.endName format ch).name = parser.name := by
    rw [Parser.endName]
    split <;> exact ⟨rfl, rfl⟩
  rw [Parser.inName, if_pos ends, addItem_granted, kept.1]
  simp only [Except.map, Parser.setOption, modifyLast_concat, kept.2]

theorem named_pairs (inName : InName format done base chars text before) :
    Forall₂ (Settled format (store before.memory format.width before.pos charNull)
        (before.pos + format.width)) before.parsedVars done ∧
      Settled format (store before.memory format.width before.pos charNull)
        (before.pos + format.width) ⟨before.name, none⟩ ⟨some chars, none⟩ := by
  constructor
  · exact settled_all inName.settled (Nat.le_add_right _ _) fun place below => if_neg (by omega)
  · intro other agrees
    refine ⟨?_, .missing⟩
    rw [inName.name]
    exact settled_string inName.segment agrees

theorem name_equals (inName : InName format done base chars (equalsSign :: text) before) :
    ∃ after, Leads format false before after ∧ Begun format done (some chars) text after := by
  have turned : before.turn format false granted = _ := turn_of_idle inName.toIdleAt
  have state : (before.access before.pos format.width).state = .name := inName.state
  rw [Parser.inState, state] at turned
  dsimp only at turned
  rw [inName_ends (.inl rfl), Parser.endName, if_pos rfl] at turned
  obtain ⟨settled, named⟩ := named_pairs inName
  have behind : Stored format (store before.memory format.width before.pos charNull)
      (before.pos + format.width) text := inName.text.2.2.congr fun place above => if_neg (by omega)
  refine ⟨_, leads_of_turn turned inName.text.2.1, ?_⟩
  rw [advance_of_unset (by exact inName.retake)]
  exact ⟨⟨rfl, _, _, rfl, settled, named⟩, ⟨⟨inName.retake, ⟨_, rfl, le_refl _, rfl⟩, behind⟩, rfl,
    fun quoted => absurd rfl quoted⟩, inName.pushState⟩

theorem name_delimited {next : List Nat} (delimited : Delimited rest next)
    (inName : InName format done base chars rest before) :
    ∃ after, before.turn format false granted = .ok (rest.headD charNull, after) ∧
      Idle format .whiteSpace (done ++ [⟨some chars, none⟩]) after ∧
      after.pos = before.pos + format.width ∧
      ∀ place, before.pos + format.width ≤ place → after.memory place = before.memory place := by
  have blank := delimited_blank delimited
  have unequal : rest.headD charNull ≠ equalsSign := (space_or_null_cases blank).2.2.2.2
  have turned : before.turn format false granted = _ := turn_of_stored inName.text
  have state : (before.access before.pos format.width).state = .name := inName.state
  rw [Parser.inState, state] at turned
  dsimp only at turned
  rw [inName_ends (.inr blank), Parser.endName, if_neg unequal] at turned
  obtain ⟨settled, named⟩ := named_pairs inName
  refine ⟨_, turned, ?_⟩
  rw [advance_of_unset (by exact inName.retake)]
  exact ⟨⟨rfl, inName.pushState, inName.retake, rel_append settled (.cons named .nil)⟩, rfl,
    fun place above => if_neg (not_lt.mpr above ∘ And.right)⟩

theorem token_begins (unhash : ch ≠ hash) (unblank : ocIsSpace ch = false)
    (idle : IdleAt format .whiteSpace done (ch :: text) before) :
    ∃ after, Leads format true before after ∧ Begun format done none (ch :: text) after := by
  have turned : before.turn format true granted = _ := turn_of_idle idle
  have state : (before.access before.pos format.width).state = .whiteSpace := idle.state
  rw [Parser.inState, state] at turned
  dsimp only at turned
  rw [Parser.inWhiteSpace, if_neg unhash, if_neg (not_space_or_null idle.text.2.1 unblank),
    if_pos rfl, addItem_granted] at turned
  have fresh : Settled format before.memory before.pos ⟨none, none⟩ ⟨none, none⟩ :=
    fun _ _ => ⟨.missing, .missing⟩
  exact ⟨_, leads_of_turn turned idle.text.2.1, ⟨rfl, _, _, rfl, idle.settled, fresh⟩,
    ⟨⟨rfl, ⟨_, rfl, le_refl _, rfl⟩, idle.text⟩, rfl, fun quoted => absurd rfl quoted⟩,
    idle.pushState⟩

end Names

section Texts

section

variable {text : List Nat} {vars : List Variable} {inComment : Bool}
  (reads : Reads tokensOnly text vars inComment) (visible : ∀ var ∈ vars, var.hides = false)
include reads visible

/-- The parser yields the pairs of the grammar, without the backslashes that stay in double
quotes; a text that ends in a comment is invalid. -/
theorem reads_ran
    (done : List Pair) (parser : Parser) (idle : IdleAt format .whiteSpace done text parser) :
    Ran format tokensOnly parser (pairsOf inComment done vars) := by
  induction reads generalizing done parser with
  | nil =>
    have state : (parser.access parser.pos format.width).state = .whiteSpace := idle.state
    have turned : parser.turn format tokensOnly granted =
        .ok (charNull, (parser.access parser.pos format.width).advance format) := by
      rw [Parser.turn, show charAt format parser.memory parser.pos = charNull from idle.text,
        Parser.inState, state]
      rfl
    rw [pairsOf, map_nil, append_nil]
    refine ran_of_last turned (conclude_shows ?_)
    rw [advance_of_unset (by exact idle.retake)]
    exact ⟨idle.state, idle.pushState, idle.retake,
      settled_all idle.settled (Nat.le_add_right _ _) fun _ _ => rfl⟩
  | blank isBlank behind ih =>
    obtain ⟨after, leads, reached⟩ := space_turn isBlank idle
    exact ran_of_leads leads (ih visible done after reached)
  | comment within behind ih =>
    obtain ⟨first, begins, inside⟩ := hash_turn idle
    obtain ⟨last, goesOn, ended⟩ := line_read within inside
    obtain ⟨after, ends, reached⟩ := comment_turn ended
    rw [if_pos rfl] at reached
    exact ran_of_leads (begins.trans (goesOn.trans ends)) (ih visible done after reached)
  | @lastComment line within =>
    rw [← append_nil line] at idle
    obtain ⟨first, begins, inside⟩ := hash_turn idle
    obtain ⟨last, goesOn, ended⟩ := line_read within inside
    exact ran_of_leads (begins.trans goesOn) (comment_ran ended)
  | token only begins value delimited behind ih =>
    obtain ⟨here, rest⟩ := forall_mem_cons.mp visible
    subst only
    obtain ⟨after, leads, begun⟩ := token_begins begins.1 begins.2 idle
    exact ran_of_leads leads
      (assigned_ran behind (ih rest) here begun begins.2 value delimited)
  | name named valid delimited behind ih =>
    obtain ⟨-, rest⟩ := forall_mem_cons.mp visible
    subst named
    obtain ⟨last, leads, inName⟩ := name_read valid idle
    obtain ⟨after, turned, idleAfter, pos, unchanged⟩ := name_delimited delimited inName
    rw [pairsOf_cons]
    exact ran_of_leads leads (ran_of_delimited turned idleAfter delimited inName.text pos unchanged
      behind (ih rest _))
  | missing named valid delimited behind ih =>
    obtain ⟨-, rest⟩ := forall_mem_cons.mp visible
    subst named
    obtain ⟨last, leads, inName⟩ := name_read valid idle
    obtain ⟨after, ends, begun⟩ := name_equals inName
    exact ran_of_leads (leads.trans ends) (missing_ran behind (ih rest) begun delimited)
  | assigned named valid present value delimited behind ih =>
    obtain ⟨here, rest⟩ := forall_mem_cons.mp visible
    subst named
    obtain ⟨last, leads, inName⟩ := name_read valid idle
    obtain ⟨after, ends, begun⟩ := name_equals inName
    exact ran_of_leads (leads.trans ends)
      (assigned_ran behind (ih rest) here begun present value delimited)

theorem ocParseVars_yields
    {memory : Memory} {address : Nat} (stored : Stored format memory address text) :
    Yields format tokensOnly memory address (pairsOf inComment [] vars) := by
  cases text with
  | nil =>
    obtain ⟨rfl, rfl⟩ := reads_nil reads
    exact ⟨0, _, if_pos stored, rfl⟩
  | cons ch text =>
    have nonzero : ¬ charAt format memory address = charNull := by
      rw [stored.1]
      exact stored.2.1
    obtain ⟨fuel, outcome, ran, shown⟩ := reads_ran reads visible [] (start format memory address)
      ⟨⟨rfl, rfl, rfl, .nil⟩, stored⟩
    refine ⟨fuel, outcome, ?_, shown⟩
    rw [ocParseVars]
    exact (if_neg nonzero).trans ((if_pos rfl).trans ran)

end

end Texts

section Uniqueness
variable {memory : Memory} {address : Nat} {parser : Parser} {outcome other : Outcome}
variable {pairs others : Option (List Pair)}

theorem stored_unique {chars others : List Nat} (stored : Stored format memory address chars)
    (again : Stored format memory address others) : chars = others := by
  induction chars generalizing address others with
  | nil =>
    cases others with
    | nil => rfl
    | cons ch rest => exact absurd (again.1.symm.trans stored) again.2.1
  | cons ch rest ih =>
    obtain ⟨found, nonzero, behind⟩ := stored
    cases others with
    | nil => exact absurd (found.symm.trans again) nonzero
    | cons first others => rw [← found, again.1, ih behind again.2.2]

theorem run_unique {fuel more : Nat}
    (ran : parser.run format tokensOnly granted fuel = some outcome)
    (again : parser.run format tokensOnly granted more = some other) : outcome = other := by
  induction fuel generalizing parser more with
  | zero => cases ran
  | succ fuel ih =>
    cases more with
    | zero => cases again
    | succ more =>
      rw [Parser.run] at ran again
      cases turned : parser.turn format tokensOnly granted with
      | error stopped =>
        rw [turned] at ran again
        exact Option.some.inj (ran.symm.trans again)
      | ok next =>
        rw [turned] at ran again
        dsimp only at ran again
        split at ran
        · rename_i last
          rw [if_pos last] at again
          exact Option.some.inj (ran.symm.trans again)
        · rename_i further
          rw [if_neg further] at again
          exact ih ran again

theorem shown_unique {pointer : Option Nat} {chars others : Option (List Nat)}
    (shown : Shown format memory pointer chars) (again : Shown format memory pointer others) :
    chars = others := by
  cases shown with
  | missing =>
    cases again with
    | missing => rfl
  | present stored =>
    cases again with
    | present repeated => rw [stored_unique stored repeated]

theorem pairs_unique {vars : List ParsedVar} {pairs others : List Pair}
    (shown : Forall₂ (ShownPair format memory) vars pairs)
    (again : Forall₂ (ShownPair format memory) vars others) : pairs = others := by
  induction shown generalizing others with
  | nil =>
    cases again with
    | nil => rfl
  | @cons var pair vars pairs first rest ih =>
    cases again with
    | @cons _ other _ others firstAgain restAgain =>
      obtain ⟨name, value⟩ := pair
      obtain ⟨otherName, otherValue⟩ := other
      have names : name = otherName := shown_unique first.name firstAgain.name
      have values : value = otherValue := shown_unique first.value firstAgain.value
      rw [names, values, ih restAgain]

theorem shows_unique (shown : Shows format outcome pairs)
    (again : Shows format outcome others) : pairs = others := by
  match pairs, others with
  | none, none => rfl
  | none, some [] => exact absurd (shown.symm.trans again) (by decide)
  | none, some (_ :: _) => exact absurd (shown.symm.trans again.1) (by decide)
  | some [], none => exact absurd (again.symm.trans shown) (by decide)
  | some [], some [] => rfl
  | some [], some (_ :: _) => exact absurd (shown.symm.trans again.1) (by decide)
  | some (_ :: _), none => exact absurd (again.symm.trans shown.1) (by decide)
  | some (_ :: _), some [] => exact absurd (again.symm.trans shown.1) (by decide)
  | some (_ :: _), some (_ :: _) => exact congrArg some (pairs_unique shown.2 again.2)

theorem yields_unique (yields : Yields format tokensOnly memory address pairs)
    (again : Yields format tokensOnly memory address others) : pairs = others := by
  obtain ⟨fuel, outcome, ran, shown⟩ := yields
  obtain ⟨more, other, ranAgain, shownAgain⟩ := again
  have same : outcome = other := by
    rw [ocParseVars] at ran ranAgain
    dsimp only at ran ranAgain
    split at ran
    · rename_i empty
      rw [if_pos empty] at ranAgain
      exact Option.some.inj (ran.symm.trans ranAgain)
    · rename_i nonempty
      rw [if_neg nonempty] at ranAgain
      exact run_unique ran ranAgain
  rw [← same] at shownAgain
  exact shows_unique shown shownAgain

end Uniqueness

section Grammar
variable {text : List Nat} {vars : List Variable} {inComment : Bool} {memory : Memory}
  {address : Nat}

theorem stripped_eq_iff (reading : ParseVarsGrammar.Reading) :
    reading.chars = reading.stripped ↔ reading.letters.any Letter.kept = false := by
  rw [Reading.chars, Reading.stripped]
  constructor
  · intro same
    have lengths := congrArg List.length same
    rw [length_map, length_map] at lengths
    have kept := length_filter_eq_length_iff.mp lengths.symm
    simpa using kept
  · intro kept
    rw [filter_eq_self.mpr]
    simpa using kept

theorem pair_eq_iff (var : Variable) : var.pair = var.strippedPair ↔ var.keeps = false := by
  rw [Variable.pair, Variable.strippedPair, Variable.keeps]
  cases var.reading.filter fun reading => !reading.expanded with
  | none => exact iff_of_true rfl rfl
  | some reading =>
    rw [Option.any_some, ← stripped_eq_iff reading]
    simp

theorem yields_iff (reads : Reads tokensOnly text vars inComment)
    (visible : ∀ var ∈ vars, var.hides = false) (stored : Stored format memory address text) :
    Yields format tokensOnly memory address (some (vars.map Variable.pair)) ↔
      inComment = false ∧ ∀ var ∈ vars, var.keeps = false := by
  have yielded := ocParseVars_yields reads visible stored
  constructor
  · intro yields
    have same := yields_unique yields yielded
    rw [pairsOf] at same
    cases inComment with
    | true => cases same
    | false =>
      refine ⟨rfl, fun var member => ?_⟩
      have pairs : vars.map Variable.pair = vars.map Variable.strippedPair := Option.some.inj same
      exact (pair_eq_iff var).mp (map_inj_left.mp pairs var member)
  · rintro ⟨rfl, keepsNone⟩
    rw [map_congr_left fun var member => (pair_eq_iff var).mpr (keepsNone var member)]
    exact yielded

/-- The pairs are those of the grammar exactly when the text does not end in a comment and
no backslash stays in the double quotes of a value; the form of the text plays no part. -/
theorem ocParseVars_by_grammar (reads : Reads tokensOnly text vars inComment)
    (visible : ∀ var ∈ vars, var.hides = false) :
    (∀ format memory address, Stored format memory address text →
        (Yields format tokensOnly memory address (some (vars.map Variable.pair)) ↔
          inComment = false ∧ ∀ var ∈ vars, var.keeps = false)) ∧
      ∃ pairs, ∀ format memory address, Stored format memory address text →
        Yields format tokensOnly memory address pairs :=
  ⟨fun _ _ _ stored => yields_iff reads visible stored,
    _, fun _ _ _ stored => ocParseVars_yields reads visible stored⟩

def quotedText : List Nat :=
  [0x61, 0x3D, 0x27, 0x62, 0x20, 0x63, 0x27, 0x5C, 0x20, 0x22, 0x5C, 0x22, 0x22, 0x20, 0x64]

def quotedReading : ParseVarsGrammar.Reading :=
  ⟨[0x62, 0x20, 0x63, 0x20, 0x22].map letter, false, false⟩

theorem quotedText_reads : Reads false quotedText
    [⟨some [0x61], some quotedReading⟩, ⟨some [0x64], none⟩] false := by
  have value : Value .unquoted (quotedText.drop 2) quotedReading [0x20, 0x64] := by
    refine @Value.opens .single _ _ _ (by decide) ?_
    refine @Value.quotes 0x62 _ _ ⟨[0x20, 0x63, 0x20, 0x22].map letter, false, false⟩ (by decide) ?_
    refine @Value.quotes 0x20 _ _ ⟨[0x63, 0x20, 0x22].map letter, false, false⟩ (by decide) ?_
    refine @Value.quotes 0x63 _ _ ⟨[0x20, 0x22].map letter, false, false⟩ (by decide) ?_
    refine @Value.closes .single _ _ _ (by decide) ?_
    refine @Value.escapes _ 0x20 _ _ ⟨[letter 0x22], false, false⟩ (.inl rfl) ?_
    refine @Value.opens .double _ _ _ (by decide) ?_
    refine @Value.escapes _ 0x22 _ _ .empty (.inr ⟨rfl, by decide⟩) ?_
    refine @Value.closes .double _ _ _ (by decide) ?_
    exact .ends _ (by decide)
  exact @Reads.assigned false [0x61] _ _ _ _ _ _ _ rfl (by decide) (by decide) value
    (.atBlank (by decide)) (@Reads.name false [0x64] _ _ _ _ rfl (by decide) .atEnd .nil)

theorem quotedText_by_grammar :
    (∀ format memory address, Stored format memory address quotedText →
        (Yields format false memory address
          (some [⟨some [0x61], some [0x62, 0x20, 0x63, 0x20, 0x22]⟩, ⟨some [0x64], none⟩]) ↔
          false = false ∧ ∀ var ∈ [⟨some [0x61], some quotedReading⟩, ⟨some [0x64], none⟩],
            Variable.keeps var = false)) ∧
      ∃ pairs, ∀ format memory address, Stored format memory address quotedText →
        Yields format false memory address pairs :=
  ocParseVars_by_grammar quotedText_reads (by decide)

def keptText : List Nat := [0x61, 0x3D, 0x22, 0x62, 0x5C, 0x63, 0x22]

def keptReading : ParseVarsGrammar.Reading := ⟨[⟨0x62, false⟩, ⟨0x5C, true⟩, ⟨0x63, false⟩], false, false⟩

theorem keptText_reads : Reads false keptText [⟨some [0x61], some keptReading⟩] false := by
  have value : Value .unquoted (keptText.drop 2) keptReading [] := by
    refine @Value.opens .double _ _ _ (by decide) ?_
    refine @Value.plain .double 0x62 _ _ ⟨[⟨0x5C, true⟩, ⟨0x63, false⟩], false, false⟩ (by decide)
      (by decide) ?_
    refine @Value.keeps 0x63 _ _ .empty (by decide) ?_
    refine @Value.closes .double _ _ _ (by decide) ?_
    exact .ends _ (by decide)
  exact @Reads.assigned false [0x61] _ _ _ _ _ _ _ rfl (by decide) (by decide) value .atEnd .nil

/-- Of `a="b\c"` the parser yields another value than `b\c`. -/
theorem keptText_misread :
    Reads false keptText [⟨some [0x61], some keptReading⟩] false ∧
      ∃ memory, Stored .ascii memory 0 keptText ∧
        ¬ Yields .ascii false memory 0 (some [⟨some [0x61], some [0x62, 0x5C, 0x63]⟩]) := by
  refine ⟨keptText_reads, fun place => UInt8.ofNat (keptText.getD place 0), by decide, ?_⟩
  intro yields
  have kept := (yields_iff keptText_reads (by decide) (by decide)).mp yields
  exact absurd kept.2 (by decide)

end Grammar

end OpenCore.ParseVarsPairs
