import OpenCore.ParseVarsTurns

/-!
`OcParseVars` over a whole string. A string that ends in an escape loses its terminator,
which the parser passes together with the backslash; every other string is parsed to its
end and within its bounds.
-/

namespace OpenCore.ParseVarsSafety

open AddressSpace ParseVars ParseVarsTurns

variable {format : StringFormat} {tokensOnly : Bool} {allocations : Allocations}

section Runs
variable {low high fuel : Nat} {parser : Parser} {ctx : Context} {chars : List Nat}
  {outcome : Outcome}
variable {rest : List Nat} {ch : Nat}

theorem conclude_accesses : parser.conclude.accesses = parser.accesses := by
  rw [Parser.conclude]
  split
  · rfl
  · split
    · rfl
    · rfl

theorem run_reads (ready : Ready low ctx parser)
    (ran : parser.run format tokensOnly allocations fuel = some outcome) :
    ∀ access ∈ (parser.access parser.pos format.width).accesses, access ∈ outcome.accesses := by
  induction fuel generalizing parser ctx with
  | zero => cases ran
  | succ fuel ih =>
    intro access member
    have turned : Turned format tokensOnly allocations low ctx _ _ _ :=
      turn_turned_of_access ready rfl
    rw [Parser.run] at ran
    cases result : parser.turn format tokensOnly allocations with
    | error stopped =>
      rw [result] at turned ran
      cases ran
      exact turned.1.mem member
    | ok next =>
      obtain ⟨left, next⟩ := next
      rw [result] at turned ran
      obtain ⟨-, moves, passed⟩ := turned
      have kept := moves.mem member
      dsimp only at ran
      split at ran
      · cases ran
        rw [conclude_accesses]
        exact kept
      · obtain ⟨following, nextReady⟩ := passed.ready
        exact ih nextReady ran access (List.mem_append_left _ kept)

theorem endsInEscape_of_starts (begins : starts tokensOnly ch ctx) :
    endsInEscape tokensOnly ctx (ch :: rest) =
      endsInEscape tokensOnly (.value .unquoted) (ch :: rest) := by
  have entered : ctx.entered tokensOnly ch = .value .unquoted := if_pos begins
  have again : (Context.value .unquoted).entered tokensOnly ch = .value .unquoted := by
    rw [Context.entered, ite_self]
  cases rest with
  | nil => rw [endsInEscape, endsInEscape, entered, again]
  | cons next rest => rw [endsInEscape, endsInEscape, entered, again]

theorem endsInEscape_of_plain
    (continues : starts tokensOnly ch ctx = false) (plain : ¬(ch = backslash ∧ ctx.escapes)) :
    endsInEscape tokensOnly ctx (ch :: rest) = endsInEscape tokensOnly (ctx.after ch) rest := by
  have entered : ctx.entered tokensOnly ch = ctx := by
    rw [Context.entered, continues, if_neg Bool.false_ne_true]
  cases rest with
  | nil =>
    rw [endsInEscape, endsInEscape, entered]
    rw [Bool.eq_false_iff]
    intro escape
    rw [Bool.and_eq_true, beq_iff_eq] at escape
    exact plain escape
  | cons next rest => rw [endsInEscape, entered, if_neg plain]

theorem entered_of_escapes (escapes : ctx.escapes) :
    ctx.entered tokensOnly ch = ctx := by
  cases ctx with
  | value quoting => simp [Context.entered, starts]
  | _ => cases escapes

def turnsLeft (ctx : Context) (chars : List Nat) : Nat :=
  2 * chars.length + if ctx = .whiteSpace then 2 else 1

theorem turnsLeft_pos : 0 < turnsLeft ctx chars := by
  rw [turnsLeft]
  split <;> omega

/-- Behind a character of the string the parser is at a rest of the string, or behind the
terminator. -/
inductive Follows (format : StringFormat) (tokensOnly : Bool) (low high : Nat) (ctx : Context)
    (chars : List Nat) (after : Parser) : Prop where
  | rest (next : Context) (left : List Nat) (ready : Ready low next after)
      (stored : Stored format after.memory after.pos left)
      (ends : after.pos + format.width * left.length + format.width = high)
      (same : endsInEscape tokensOnly next left = endsInEscape tokensOnly ctx chars)
      (fewer : turnsLeft next left < turnsLeft ctx chars)
  | behind (escape : endsInEscape tokensOnly ctx chars = true) (pos : after.pos = high)

theorem turnsLeft_of_shorter {next : Context}
    (shorter : rest.length < chars.length) : turnsLeft next rest < turnsLeft ctx chars := by
  rw [turnsLeft, turnsLeft]
  split <;> split <;> omega

theorem follows_of_passed {before after : Parser}
    (passed : Passed format tokensOnly low ctx ch before after)
    (moves : Moves low (before.pos + format.width) before after)
    (stored : Stored format before.memory before.pos (ch :: rest))
    (ends : before.pos + format.width * (ch :: rest).length + format.width = high) :
    Follows format tokensOnly low high ctx (ch :: rest) after := by
  obtain ⟨found, nonzero, behind⟩ := stored
  cases passed with
  | started begins pos memory ready =>
    refine .rest _ (ch :: rest) ready ?_ (by rw [pos, ends]) (endsInEscape_of_starts begins).symm ?_
    · rw [pos, memory]
      exact ⟨found, nonzero, behind⟩
    · have white : ctx = .whiteSpace := by
        simp only [starts, Bool.and_eq_true, beq_iff_eq] at begins
        exact begins.1.1.2
      rw [turnsLeft, turnsLeft, if_pos white, if_neg (by decide)]
      omega
  | escaped escape pos ready =>
    have entered : ctx.entered tokensOnly ch = ctx := entered_of_escapes escape.2
    rw [List.length_cons, Nat.mul_succ] at ends
    cases rest with
    | nil =>
      refine .behind ?_ ?_
      · rw [endsInEscape, entered, escape.1, escape.2]
        rfl
      · rw [pos]
        rw [List.length_nil] at ends
        omega
    | cons skipped rest =>
      rw [List.length_cons, Nat.mul_succ] at ends
      refine .rest ctx rest ready ?_ (by rw [pos]; omega) ?_ (turnsLeft_of_shorter ?_)
      · rw [pos]
        exact behind.2.2.congr fun place above => moves.behind place (by omega)
      · rw [endsInEscape, entered, if_pos escape]
      · simp only [List.length_cons]
        omega
  | passed continues plain pos ready =>
    rw [List.length_cons, Nat.mul_succ] at ends
    refine .rest _ rest ready ?_ (by rw [pos]; omega)
      (endsInEscape_of_plain continues plain).symm (turnsLeft_of_shorter (Nat.lt_succ_self _))
    rw [pos]
    exact behind.congr fun place above => moves.behind place above

theorem run_inside (ready : Ready low ctx parser)
    (stored : Stored format parser.memory parser.pos chars)
    (ends : parser.pos + format.width * chars.length + format.width = high)
    (within : ∀ access ∈ parser.accesses, Access.inside low high access)
    (noEscape : endsInEscape tokensOnly ctx chars = false) (enough : turnsLeft ctx chars ≤ fuel) :
    ∃ outcome, parser.run format tokensOnly allocations fuel = some outcome ∧
      ∀ access ∈ outcome.accesses, Access.inside low high access := by
  induction fuel generalizing parser ctx chars with
  | zero => exact absurd enough (Nat.not_le_of_lt turnsLeft_pos)
  | succ fuel ih =>
    have bound : parser.pos + format.width ≤ high := by
      rw [← ends]
      exact Nat.add_le_add_right (Nat.le_add_right _ _) _
    have turned : Turned format tokensOnly allocations low ctx _ _ _ := turn_turned ready rfl
    rw [Parser.run]
    cases result : parser.turn format tokensOnly allocations with
    | error stopped =>
      rw [result] at turned
      exact ⟨_, rfl, turned.1.within bound within⟩
    | ok next =>
      obtain ⟨left, next⟩ := next
      rw [result] at turned
      obtain ⟨rfl, moves, passed⟩ := turned
      have nextWithin := moves.within bound within
      dsimp only
      cases chars with
      | nil =>
        refine ⟨_, if_pos stored, ?_⟩
        rw [conclude_accesses]
        exact nextWithin
      | cons ch rest =>
        obtain ⟨rfl, nonzero, -⟩ := id stored
        rw [if_neg nonzero]
        cases follows_of_passed passed moves stored ends with
        | rest following left nextReady nextStored nextEnds same fewer =>
          exact ih nextReady nextStored nextEnds nextWithin (same.trans noEscape) (by omega)
        | behind escape _ =>
          rw [noEscape] at escape
          cases escape

theorem run_reads_behind (allocated : ∀ index, allocations.item index = true)
    (ready : Ready low ctx parser) (stored : Stored format parser.memory parser.pos chars)
    (ends : parser.pos + format.width * chars.length + format.width = high)
    (escape : endsInEscape tokensOnly ctx chars = true)
    (ran : parser.run format tokensOnly allocations fuel = some outcome) :
    ⟨high, format.width⟩ ∈ outcome.accesses := by
  induction fuel generalizing parser ctx chars with
  | zero => cases ran
  | succ fuel ih =>
    have turned : Turned format tokensOnly allocations low ctx _ _ _ := turn_turned ready rfl
    rw [Parser.run] at ran
    cases result : parser.turn format tokensOnly allocations with
    | error stopped =>
      rw [result] at turned
      obtain ⟨index, refused⟩ := turned.2
      rw [allocated index] at refused
      cases refused
    | ok next =>
      obtain ⟨left, next⟩ := next
      rw [result] at turned ran
      obtain ⟨rfl, moves, passed⟩ := turned
      dsimp only at ran
      cases chars with
      | nil =>
        rw [endsInEscape] at escape
        cases escape
      | cons ch rest =>
        obtain ⟨rfl, nonzero, -⟩ := id stored
        rw [if_neg nonzero] at ran
        cases follows_of_passed passed moves stored ends with
        | rest following left nextReady nextStored nextEnds same fewer =>
          exact ih nextReady nextStored nextEnds (same.trans escape) ran
        | behind _ pos =>
          obtain ⟨following, nextReady⟩ := passed.ready
          apply run_reads nextReady ran
          rw [pos]
          exact List.mem_append_right _ (List.mem_singleton.mpr rfl)

end Runs

section Strings
variable {memory : Memory} {address : Nat} {chars : List Nat}

/-- The parser terminates and accesses nothing but the string of so many characters and its
terminator, whatever allocations succeed. -/
def ParsesInside (format : StringFormat) (tokensOnly : Bool) (memory : Memory)
    (address length : Nat) : Prop :=
  ∀ allocations, ∃ fuel outcome,
    ocParseVars fuel allocations memory (some address) format tokensOnly = some outcome ∧
      ∀ access ∈ outcome.accesses,
        Access.inside address (address + format.width * length + format.width) access

theorem start_ready : Ready address .whiteSpace (start format memory address) where
  lower := le_refl _
  retake := rfl
  inContext := rfl

theorem start_within (length : Nat) :
    ∀ access ∈ (start format memory address).accesses,
      Access.inside address (address + format.width * length + format.width) access := by
  intro access member
  rw [List.mem_singleton.mp member]
  exact ⟨le_refl _, Nat.add_le_add_right (Nat.le_add_right _ _) _⟩

theorem parsesInside_of_plain (stored : Stored format memory address chars)
    (noEscape : endsInEscape tokensOnly .whiteSpace chars = false) :
    ParsesInside format tokensOnly memory address chars.length := by
  intro allocations
  have started : ∀ access ∈ (start format memory address).accesses,
      Access.inside address (address + format.width * chars.length + format.width) access :=
    start_within _
  obtain ⟨outcome, ran, within⟩ : ∃ outcome, Parser.run _ _ allocations _ _ = some outcome ∧ _ := run_inside
    start_ready stored rfl started noEscape (le_refl _)
  refine ⟨turnsLeft .whiteSpace chars, ?_⟩
  rw [ocParseVars]
  split
  · exact ⟨_, rfl, started⟩
  · split
    · exact ⟨outcome, ran, within⟩
    · exact ⟨_, rfl, started⟩

theorem not_parsesInside_of_escape (stored : Stored format memory address chars)
    (escape : endsInEscape tokensOnly .whiteSpace chars = true) :
    ¬ ParsesInside format tokensOnly memory address chars.length := by
  intro inside
  obtain ⟨fuel, outcome, parsed, within⟩ := inside ⟨true, fun _ => true⟩
  cases chars with
  | nil =>
    rw [endsInEscape] at escape
    cases escape
  | cons ch rest =>
    have nonzero : charAt format memory address ≠ charNull := by
      rw [stored.1]
      exact stored.2.1
    simp only [ocParseVars, if_neg nonzero, if_true] at parsed
    have behind := within _ (run_reads_behind (fun _ => rfl) start_ready stored rfl escape parsed)
    have positive : 0 < format.width := by
      cases format <;> decide
    have upper := behind.2
    dsimp only at upper
    exact absurd upper (by simp only [start]; omega)

/-- Parsing stays in the string exactly when the string does not end in an escape. -/
theorem ocParseVars_inside_iff (stored : Stored format memory address chars) :
    ParsesInside format tokensOnly memory address chars.length ↔
      endsInEscape tokensOnly .whiteSpace chars = false := by
  constructor
  · intro inside
    rw [Bool.eq_false_iff]
    intro escape
    exact not_parsesInside_of_escape stored escape inside
  · exact parsesInside_of_plain stored

def escapedInside : Memory := fun place => [0x61, 0x3D, 0x62, 0x5C, 0x63].getD place 0

theorem escapedInside_inside : ParsesInside .ascii false escapedInside 0 5 := by
  have stored : Stored .ascii escapedInside 0 [0x61, 0x3D, 0x62, 0x5C, 0x63] := by decide
  exact (ocParseVars_inside_iff stored).mpr (by decide)

def escapedEnd : Memory := fun place => [0x61, 0x3D, 0x62, 0x5C].getD place 0

theorem escapedEnd_read_behind :
    Stored .ascii escapedEnd 0 [0x61, 0x3D, 0x62, 0x5C] ∧
      ¬ ParsesInside .ascii false escapedEnd 0 4 := by
  have stored : Stored .ascii escapedEnd 0 [0x61, 0x3D, 0x62, 0x5C] := by decide
  exact ⟨stored, not_parsesInside_of_escape stored (by decide)⟩

end Strings

end OpenCore.ParseVarsSafety
