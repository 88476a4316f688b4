import OpenCore.AcpiLookup

/-!
The search through encoded objects. A term ends with what the objects in it come
to, the loop of a scope with what all its objects come to; both follow by
induction on the sequence, the objects inside a scope before those behind it.
Every block costs two levels of nesting, so an object fails to parse below
`deepest`.
-/

namespace OpenCore.AcpiLookupTerms

open TracedAction AcpiContext AcpiParser AmlObjects AcpiLookup List

variable {lookup : Lookup} {path : List UInt32}
  {opcode pointer nesting counted result depth : Nat}

def deepest : Nat := (maxNesting - 3) / 2

section Outcomes

/-- An action comes to a verdict: it ends behind its terms, or leaves with a
status. -/
def Comes {α : Type} (ended : Except Exit α) (leaves : Status → Except Exit α) (action : Parser α)
    (ctx : Context) (ends : Nat) (verdict : Verdict) : Prop :=
  match verdict with
  | .goesOn counted =>
    Ends action ctx ended { ctx with currentOpcode := ends, entriesFound := counted }
  | .found position =>
    ∃ final, Ends action ctx (leaves .success) final ∧ final.result = position
  | .tooDeep => ∃ final, Ends action ctx (leaves .deviceError) final

theorem Comes.congr {α : Type} {ended : Except Exit α} {leaves : Status → Except Exit α}
    {action other : Parser α} {ctx : Context} {ends : Nat} {verdict : Verdict}
    (comes : Comes ended leaves action ctx ends verdict)
    (follows : ∀ outcome final, Ends action ctx outcome final → Ends other ctx outcome final) :
    Comes ended leaves other ctx ends verdict := by
  cases verdict with
  | goesOn counted => exact follows _ _ comes
  | found position =>
    obtain ⟨final, run, found⟩ := comes
    exact ⟨final, follows _ _ run, found⟩
  | tooDeep =>
    obtain ⟨final, run⟩ := comes
    exact ⟨final, follows _ _ run⟩

abbrev LoopEnds : Parser Unit → Context → Nat → Verdict → Prop :=
  Comes (.ok ()) fun status => .error (.returned status)

abbrev TermEnds : Parser Status → Context → Nat → Verdict → Prop := Comes (.ok .notFound) .ok

inductive TermRun (body : Parser Status) (ends : Nat) : Nat → Context → Verdict → Prop where
  | done {ctx : Context} (reached : ctx.currentOpcode = ends) :
      TermRun body ends 0 ctx (.goesOn ctx.entriesFound)
  | step {ctx : Context} {count behind : Nat} {verdict : Verdict} {next : Nat → Verdict}
      (inside : ctx.currentOpcode < ends) (head : TermEnds body ctx behind verdict)
      (rest : ∀ counted, verdict = .goesOn counted →
        TermRun body ends count
          { ctx with currentOpcode := behind, entriesFound := counted } (next counted)) :
      TermRun body ends (count + 1) ctx (verdict.andThen next)

section Loop

variable {α : Type} {ended : Except Exit α} {leaves : Status → Except Exit α}
  {body : Parser Status} {ends : Nat} {loop : Nat → Parser α}

/-- A loop over terms that leaves with any status but `notFound`. -/
theorem loop_ends {count fuel : Nat} {ctx : Context} {verdict : Verdict}
    (stops : ∀ fuel ctx, ctx.currentOpcode = ends → Ends (loop (fuel + 1)) ctx ended ctx)
    (passes : ∀ fuel ctx middle outcome final, ctx.currentOpcode < ends →
      Ends body ctx (.ok .notFound) middle → Ends (loop fuel) middle outcome final →
      Ends (loop (fuel + 1)) ctx outcome final)
    (exits : ∀ fuel ctx middle status, ctx.currentOpcode < ends →
      Ends body ctx (.ok status) middle → status ≠ .notFound →
      Ends (loop (fuel + 1)) ctx (leaves status) middle)
    (run : TermRun body ends count ctx verdict) (enough : count < fuel) :
    Comes ended leaves (loop fuel) ctx ends verdict := by
  induction run generalizing fuel with
  | @done ctx reached =>
    obtain ⟨more, rfl⟩ : ∃ more, fuel = more + 1 := ⟨fuel - 1, by omega⟩
    have run := stops more ctx reached
    subst reached
    exact run
  | @step ctx count behind verdict next inside head rest ih =>
    obtain ⟨more, rfl⟩ : ∃ more, fuel = more + 1 := ⟨fuel - 1, by omega⟩
    cases verdict with
    | goesOn counted =>
      have further := ih counted rfl (Nat.lt_of_succ_lt_succ enough)
      change Comes _ _ _ _ _ (next counted)
      cases after : next counted with
      | goesOn total =>
        rw [after] at further
        exact passes _ _ _ _ _ inside head further
      | found position =>
        rw [after] at further
        obtain ⟨final, run, found⟩ := further
        exact ⟨final, passes _ _ _ _ _ inside head run, found⟩
      | tooDeep =>
        rw [after] at further
        obtain ⟨final, run⟩ := further
        exact ⟨final, passes _ _ _ _ _ inside head run⟩
    | found position =>
      obtain ⟨final, run, found⟩ := head
      exact ⟨final, exits _ _ _ _ inside run (by decide), found⟩
    | tooDeep =>
      obtain ⟨final, run⟩ := head
      exact ⟨final, exits _ _ _ _ inside run (by decide)⟩

end Loop

variable {body : Parser Status} {ctx : Context} {scopeEnd count fuel : Nat} {verdict : Verdict}

theorem scopeTerms_ends (run : TermRun body scopeEnd count ctx verdict) (enough : count < fuel) :
    LoopEnds (scopeTerms body scopeEnd fuel) ctx scopeEnd verdict := by
  apply loop_ends _ _ _ run enough
  · intro fuel ctx reached
    apply Ends.get_bind
    exact Ends.ite_false (not_lt.mpr (le_of_eq reached.symm)) Ends.pure
  · intro fuel ctx middle outcome final inside head rest
    apply Ends.get_bind
    apply Ends.ite_true inside
    apply (contextHasWork_ends ctx).bind
    exact head.bind (Ends.ite_true rfl rest)
  · intro fuel ctx middle status inside head other
    apply Ends.get_bind
    apply Ends.ite_true inside
    apply (contextHasWork_ends ctx).bind
    exact head.bind (Ends.ite_false other Ends.exit)

theorem findTerms_ends {termFuel : Nat}
    (run : TermRun (parseTermBody lookup termFuel) lookup.tableEnd count ctx verdict)
    (enough : count < fuel) :
    TermEnds (findTerms lookup termFuel fuel) ctx lookup.tableEnd verdict := by
  apply loop_ends _ _ _ run enough
  · intro fuel ctx reached
    apply Ends.get_bind
    exact Ends.ite_false (not_lt.mpr (le_of_eq reached.symm)) Ends.pure
  · intro fuel ctx middle outcome final inside head rest
    apply Ends.get_bind
    apply Ends.ite_true inside
    apply Ends.emit.bind
    apply Ends.bind ((contextHasWork_ends ctx).bind head)
    exact Ends.ite_true rfl rest
  · intro fuel ctx middle status inside head other
    apply Ends.get_bind
    apply Ends.ite_true inside
    apply Ends.emit.bind
    apply Ends.bind ((contextHasWork_ends ctx).bind head)
    exact Ends.ite_false other Ends.pure

end Outcomes

section Packages

structure Package (lookup : Lookup) (opcode extra : Nat) (name : Name) (bytes : List UInt8) :
    Prop where
  inside : opcode + packageLength extra name bytes ≤ lookup.tableEnd
  length : Stored lookup opcode (encodeLength extra (packageLength extra name bytes))
  named : Stored lookup (opcode + (extra + 1)) name.encode
  segments : Stored lookup (opcode + (extra + 1) + name.leading.length)
    (name.segments.flatMap Segment.bytes)
  nameEnd : opcode + (extra + 1) + name.encode.length ≤ opcode + packageLength extra name bytes
  body : Stored lookup (opcode + (extra + 1) + name.encode.length) bytes

theorem package_of_stored {extra : Nat} {name : Name} {bytes : List UInt8}
    (stored : Stored lookup opcode (encodePackage extra name bytes)) :
    Package lookup opcode extra name bytes := by
  have inside := stored.within
  rw [encodePackage_length] at inside
  have behind := stored.right
  rw [encodeLength_length] at behind
  refine ⟨inside, stored.left, behind.left, behind.left.right, ?_, behind.right⟩
  rw [packageLength]
  omega

end Packages

section Terms

variable (fits : lookup.tableEnd < 2 ^ 32)

theorem contextDecreaseNesting_keeps (ctx : Context) :
    ∃ final, Ends contextDecreaseNesting ctx (.ok ()) final ∧ final.result = ctx.result :=
  ⟨_, Ends.modify, rfl⟩

include fits

/-- `InternalAcpiParseTerm` around the parser of a known opcode. -/
theorem parseTermBody_ends {byte : UInt8} {term : Term} {fuel ends : Nat} {verdict : Verdict}
    (stored : lookup.table opcode = byte) (known : termOf byte = some term)
    (room : opcode + 1 < lookup.tableEnd) (limit : nesting < maxNesting)
    (inner : TermEnds (parseTermOf lookup (parseTermBody lookup fuel) fuel term)
      ⟨opcode + 1, pointer, nesting + 1, counted, result⟩ ends verdict) :
    TermEnds (parseTermBody lookup (fuel + 1)) ⟨opcode, pointer, nesting, counted, result⟩ ends
      verdict := by
  have enters : ∀ {status middle final},
      Ends (parseTermOf lookup (parseTermBody lookup fuel) fuel term)
        ⟨opcode + 1, pointer, nesting + 1, counted, result⟩ (.ok status) middle →
      Ends contextDecreaseNesting middle (.ok ()) final →
      Ends (parseTermBody lookup (fuel + 1)) ⟨opcode, pointer, nesting, counted, result⟩
        (.ok status) final := by
    intro status middle final run leaves
    apply function_ends
    apply (contextIncreaseNesting_ends _ _ _ _ .term limit).bind
    apply (currentByte_ends _).bind
    simp only [stored]
    apply Ends.bind
    · rw [dispatchTerm, known]
      exact (contextAdvanceOpcode_ends fits _ room).bind run
    · exact leaves.bind Ends.pure
  cases verdict with
  | goesOn total => exact enters inner (contextDecreaseNesting_ends _ _ _ _ limit)
  | found position =>
    obtain ⟨middle, run, found⟩ := inner
    obtain ⟨final, leaves, kept⟩ := contextDecreaseNesting_keeps middle
    exact ⟨final, enters run leaves, kept.trans found⟩
  | tooDeep =>
    obtain ⟨middle, run⟩ := inner
    obtain ⟨final, leaves, -⟩ := contextDecreaseNesting_keeps middle
    exact ⟨final, enters run leaves⟩

theorem extPrefix_ends {fuel : Nat} (stored : lookup.table opcode = 0x5B)
    (room : opcode + 1 < lookup.tableEnd) (limit : nesting < maxNesting) :
    TermEnds (parseTermBody lookup (fuel + 1)) ⟨opcode, pointer, nesting, counted, result⟩
      (opcode + 1) (.goesOn counted) := by
  have known : termOf 0x5B = some .ignored := rfl
  exact parseTermBody_ends fits stored known room limit Ends.pure

variable (required : lookup.requiredEntry < 2 ^ 32) (sought : PathIs lookup path)

omit fits in
include required in
theorem countEntry_ends (missing : counted < lookup.requiredEntry) :
    Ends (countEntry lookup) ⟨opcode, pointer, nesting, counted, result⟩
      (.ok (counted + 1 == lookup.requiredEntry))
      ⟨opcode, pointer, nesting, counted + 1, result⟩ := by
  have total : (counted + 1) % 2 ^ 32 = counted + 1 := Nat.mod_eq_of_lt (by omega)
  apply Ends.modify_bind
  apply Ends.get_bind
  simp only [total]
  exact Ends.pure

omit fits in
theorem foundAt_ends (start : Nat) (ctx : Context) :
    Ends (foundAt start) ctx (.ok .success) { ctx with result := start - 1 } :=
  Ends.modify_bind Ends.pure

def atBlock (path : List UInt32) (required pointer counted position : Nat) (name : List UInt32)
    (inside : Nat → Verdict) : Verdict :=
  if path.drop pointer = name then
    if counted + 1 = required then .found position else inside (counted + 1)
  else inside counted

omit fits in
include sought in
theorem scopeMatched_passed {start : Nat} {name : List UInt32} (within : pointer < path.length)
    (differs : path.drop pointer ≠ name) :
    Ends (scopeMatched lookup start) ⟨opcode, follow path pointer name, nesting, counted, result⟩
      (.ok ()) ⟨opcode, enter path pointer name, nesting, counted, result⟩ := by
  have some : 0 < path.length := Nat.zero_lt_of_lt within
  rw [enter, if_neg differs]
  apply Ends.get_bind
  apply Ends.ite_false
  · rw [sought.pathEnd]
    exact fun ends => differs ((follow_eq_length_iff (le_of_lt within) some).mp ends)
  · exact Ends.pure

section Counted

variable {name : List UInt32} {start : Nat} (within : pointer < path.length)
  (missing : counted < lookup.requiredEntry) (same : path.drop pointer = name)

omit fits
include required sought within missing same

theorem countedScope_ends {outcome : Except Exit Unit} {final : Context}
    (rest : Ends (if (counted + 1 == lookup.requiredEntry) = true then do
          let status ← foundAt start
          returnStatus status
        else setIdentifier 0)
      ⟨opcode, follow path pointer name, nesting, counted + 1, result⟩ outcome final) :
    Ends (scopeMatched lookup start) ⟨opcode, follow path pointer name, nesting, counted, result⟩
      outcome final := by
  have some : 0 < path.length := Nat.zero_lt_of_lt within
  have ends : follow path pointer name = lookup.pathEnd := by
    rw [sought.pathEnd]
    exact (follow_eq_length_iff (le_of_lt within) some).mpr same
  apply Ends.get_bind
  apply Ends.ite_true ends
  exact (countEntry_ends required missing).bind rest

theorem scopeMatched_found (reached : counted + 1 = lookup.requiredEntry) :
    ∃ final, Ends (scopeMatched lookup start)
      ⟨opcode, follow path pointer name, nesting, counted, result⟩
      (.error (.returned .success)) final ∧ final.result = start - 1 := by
  refine ⟨⟨opcode, follow path pointer name, nesting, counted + 1, start - 1⟩, ?_, rfl⟩
  apply countedScope_ends required sought within missing same
  apply Ends.ite_true (beq_iff_eq.mpr reached)
  exact (foundAt_ends start _).bind Ends.exit

theorem scopeMatched_counted (further : counted + 1 ≠ lookup.requiredEntry) :
    Ends (scopeMatched lookup start)
      ⟨opcode, follow path pointer name, nesting, counted, result⟩ (.ok ())
      ⟨opcode, enter path pointer name, nesting, counted + 1, result⟩ := by
  rw [enter, if_pos same]
  apply countedScope_ends required sought within missing same
  apply Ends.ite_false (by simpa using further)
  exact Ends.modify

end Counted

include sought in
theorem parseScopeOrDevice_enters {extra fuel : Nat} {name : Name} {bytes : List UInt8}
    {body : Parser Status} {outcome : Except Exit Status} {status : Status} {final : Context}
    (room : LengthFits extra (packageLength extra name bytes))
    (package : Package lookup opcode extra name bytes)
    (limit : nesting + 1 < maxNesting) (within : pointer < path.length) (rest : Ends (do
        scopeMatched lookup opcode
        scopeTerms body (opcode + packageLength extra name bytes) fuel
        setIdentifier pointer
        contextDecreaseNesting
        pure .notFound)
      ⟨opcode + (extra + 1) + name.encode.length, follow path pointer name.identifiers, nesting + 1,
        counted, result⟩ outcome final)
    (returned : outcome = .ok status ∨ outcome = .error (.returned status)) :
    Ends (parseScopeOrDevice lookup body fuel) ⟨opcode, pointer, nesting, counted, result⟩
      (.ok status) final := by
  obtain ⟨inside, length, named, segments, nameEnd, -⟩ := package
  have first := encode_pos name
  apply function_status _ returned
  apply (contextHasWork_ends _).bind
  apply (contextIncreaseNesting_ends _ _ _ _ .scopeOrDevice (by omega)).bind
  apply Ends.get_bind
  apply (parseBlockEnd_ends fits room length limit inside).bind
  apply (contextPeekBytes_ends fits _ (by simp only; omega)).bind
  apply (orDeviceError_ends (parseNameString_ends fits named limit)).bind
  apply Ends.bind
  · exact Ends.get_bind (deviceErrorIf_ends (by simp only [decide_eq_false_iff_not]; omega) _)
  apply Ends.bind
  · exact Ends.pure
  apply (matchScopeName_ends sought segments (le_of_lt within)).bind
  exact rest

include required sought in
theorem parseScopeOrDevice_ends {extra fuel : Nat} {name : Name} {bytes : List UInt8}
    {body : Parser Status} {inside : Nat → Verdict}
    (room : LengthFits extra (packageLength extra name bytes))
    (package : Package lookup opcode extra name bytes)
    (limit : nesting + 1 < maxNesting) (within : pointer < path.length)
    (missing : counted < lookup.requiredEntry) (terms : ∀ total, total < lookup.requiredEntry →
      LoopEnds (scopeTerms body (opcode + packageLength extra name bytes) fuel)
        ⟨opcode + (extra + 1) + name.encode.length, enter path pointer name.identifiers,
          nesting + 1, total, result⟩
        (opcode + packageLength extra name bytes) (inside total)) :
    TermEnds (parseScopeOrDevice lookup body fuel) ⟨opcode, pointer, nesting, counted, result⟩
      (opcode + packageLength extra name bytes)
      (atBlock path lookup.requiredEntry pointer counted (opcode - 1) name.identifiers inside) := by
  have passes : ∀ {total}, total < lookup.requiredEntry → Ends (scopeMatched lookup opcode)
        ⟨opcode + (extra + 1) + name.encode.length, follow path pointer name.identifiers,
          nesting + 1, counted, result⟩ (.ok ())
        ⟨opcode + (extra + 1) + name.encode.length, enter path pointer name.identifiers,
          nesting + 1, total, result⟩ →
      TermEnds (parseScopeOrDevice lookup body fuel) ⟨opcode, pointer, nesting, counted, result⟩
        (opcode + packageLength extra name bytes) (inside total) := by
    intro total before matched
    have loop := terms total before
    cases verdict : inside total with
    | goesOn counted =>
      rw [verdict] at loop
      have nestingLimit : nesting < maxNesting := Nat.lt_of_succ_lt limit
      refine parseScopeOrDevice_enters fits sought room package limit within ?_ (Or.inl rfl)
      apply matched.bind
      apply loop.bind
      apply (setIdentifier_ends _ _).bind
      exact (contextDecreaseNesting_ends _ _ _ _ nestingLimit).bind Ends.pure
    | found position =>
      rw [verdict] at loop
      obtain ⟨final, run, found⟩ := loop
      exact ⟨final, parseScopeOrDevice_enters fits sought room package limit within
        (matched.bind run.bind_exit) (Or.inr rfl), found⟩
    | tooDeep =>
      rw [verdict] at loop
      obtain ⟨final, run⟩ := loop
      exact ⟨final, parseScopeOrDevice_enters fits sought room package limit within
        (matched.bind run.bind_exit) (Or.inr rfl)⟩
  rw [atBlock]
  by_cases same : path.drop pointer = name.identifiers
  · rw [if_pos same]
    by_cases reached : counted + 1 = lookup.requiredEntry
    · rw [if_pos reached]
      obtain ⟨final, run, found⟩ := scopeMatched_found required sought within missing same reached
      exact ⟨final, parseScopeOrDevice_enters fits sought room package limit within run.bind_exit
        (Or.inr rfl), found⟩
    · rw [if_neg reached]
      exact passes (by omega) (scopeMatched_counted required sought within missing same reached)
  · rw [if_neg same]
    exact passes missing (scopeMatched_passed sought within same)

omit fits in
theorem parseScopeOrDevice_tooDeep {fuel ends : Nat} {body : Parser Status}
    (limit : nesting + 1 = maxNesting) :
    TermEnds (parseScopeOrDevice lookup body fuel) ⟨opcode, pointer, nesting, counted, result⟩ ends
      .tooDeep := by
  have within : nesting < maxNesting := by omega
  refine ⟨⟨opcode, pointer, maxNesting + 1, counted, result⟩, ?_⟩
  apply function_exit
  apply (contextHasWork_ends _).bind
  apply (contextIncreaseNesting_ends _ _ _ _ .scopeOrDevice within).bind
  apply Ends.get_bind
  rw [limit]
  exact parseBlockEnd_exit.bind_exit

omit fits in
theorem parseNamedBlock_tooDeep {parser : ParserName} {ends : Nat}
    (limit : nesting + 1 = maxNesting) :
    TermEnds (parseNamedBlock lookup parser) ⟨opcode, pointer, nesting, counted, result⟩ ends
      .tooDeep := by
  have within : nesting < maxNesting := by omega
  refine ⟨⟨opcode, pointer, maxNesting + 1, counted, result⟩, ?_⟩
  apply function_exit
  apply (contextHasWork_ends _).bind
  apply (contextIncreaseNesting_ends _ _ _ _ parser within).bind
  apply Ends.get_bind
  rw [limit]
  exact parseBlockEnd_exit.bind_exit

omit fits in
theorem skipBlock_ends {blockEnd target : Nat} (limit : nesting < maxNesting) :
    Ends (skipBlock blockEnd target) ⟨opcode, pointer, nesting + 1, counted, result⟩ (.ok .notFound)
      ⟨blockEnd, target, nesting, counted, result⟩ := by
  apply (moveOpcode_ends _ _).bind
  apply (setIdentifier_ends _ _).bind
  exact (contextDecreaseNesting_ends _ _ _ _ limit).bind Ends.pure

include required sought in
theorem parseNamedBlock_ends {parser : ParserName} {extra : Nat} {name : Name} {bytes : List UInt8}
    (room : LengthFits extra (packageLength extra name bytes))
    (package : Package lookup opcode extra name bytes)
    (limit : nesting + 1 < maxNesting) (within : pointer < path.length)
    (missing : counted < lookup.requiredEntry) :
    TermEnds (parseNamedBlock lookup parser) ⟨opcode, pointer, nesting, counted, result⟩
      (opcode + packageLength extra name bytes)
      (atBlock path lookup.requiredEntry pointer counted (opcode - 1) name.identifiers .goesOn) := by
  obtain ⟨inside, length, named, segments, nameEnd, -⟩ := package
  have first := encode_pos name
  have nestingLimit : nesting < maxNesting := Nat.lt_of_succ_lt limit
  have enters : ∀ {whole reached status final},
      Ends (matchWholeName lookup (opcode + (extra + 1) + name.leading.length) name.segments.length)
        ⟨opcode + (extra + 1) + name.encode.length, pointer, nesting + 1, counted, result⟩
        (.ok whole)
        ⟨opcode + (extra + 1) + name.encode.length, reached, nesting + 1, counted, result⟩ →
      Ends (if whole = true then
          finishMatch lookup opcode (opcode + packageLength extra name bytes) pointer
        else skipBlock (opcode + packageLength extra name bytes) pointer)
        ⟨opcode + (extra + 1) + name.encode.length, reached, nesting + 1, counted, result⟩
        (.ok status) final →
      Ends (parseNamedBlock lookup parser) ⟨opcode, pointer, nesting, counted, result⟩
        (.ok status) final := by
    intro whole reached status final compared rest
    apply function_ends
    apply (contextHasWork_ends _).bind
    apply (contextIncreaseNesting_ends _ _ _ _ parser nestingLimit).bind
    apply Ends.get_bind
    apply (parseBlockEnd_ends fits room length limit inside).bind
    apply Ends.bind
    · exact Ends.get_bind (deviceErrorIf_ends (by simp only [decide_eq_false_iff_not]; omega) _)
    apply (orDeviceError_ends (parseNameString_ends fits named limit)).bind
    apply Ends.bind
    · exact Ends.get_bind (deviceErrorIf_ends (by simp only [decide_eq_false_iff_not]; omega) _)
    exact compared.bind rest
  obtain ⟨reached, compared⟩ := matchWholeName_ends sought segments (le_of_lt within)
  rw [atBlock]
  by_cases same : path.drop pointer = name.identifiers
  · rw [if_pos same]
    have whole := decide_eq_true same
    by_cases last : counted + 1 = lookup.requiredEntry
    · rw [if_pos last]
      refine ⟨⟨opcode + (extra + 1) + name.encode.length, reached, nesting + 1, counted + 1,
        opcode - 1⟩, enters compared ?_, rfl⟩
      apply Ends.ite_true whole
      apply (countEntry_ends required missing).bind
      exact Ends.ite_true (beq_iff_eq.mpr last) (foundAt_ends _ _)
    · rw [if_neg last]
      apply enters compared
      apply Ends.ite_true whole
      apply (countEntry_ends required missing).bind
      apply Ends.ite_false (by simpa using last)
      exact skipBlock_ends nestingLimit
  · rw [if_neg same]
    apply enters compared
    apply Ends.ite_false fun whole => same (of_decide_eq_true whole)
    exact skipBlock_ends nestingLimit

end Terms

section Loops

variable {qualified : List UInt32} {visits : List Visit} {bytes : List UInt8}

theorem deepest_val : deepest = 510 := rfl

theorem maxNesting_val : maxNesting = 1024 := rfl

theorem look_object {required position : Nat} {qualified name : List UInt32}
    (shallow : depth ≤ deepest) (inside : List Visit) :
    look deepest required (⟨⟨position, qualified⟩, depth, path.drop pointer = name⟩ :: inside)
        counted =
      atBlock path required pointer counted position name (look deepest required inside) := by
  rw [look, if_neg (not_lt.mpr shallow), atBlock]
  simp only [decide_eq_true_eq]

theorem look_tooDeep {required : Nat} {visit : Visit} {inside : List Visit}
    (deep : deepest < visit.depth) :
    look deepest required (visit :: inside) counted = .tooDeep := by
  rw [look, if_pos deep]

theorem look_lt {required total : Nat} (missing : counted < required)
    (goesOn : look deepest required visits counted = .goesOn total) : total < required := by
  induction visits generalizing counted with
  | nil =>
    cases goesOn
    exact missing
  | cons visit rest ih =>
    rw [look] at goesOn
    split at goesOn
    · cases goesOn
    split at goesOn
    · split at goesOn
      · cases goesOn
      · exact ih (by omega) goesOn
    · exact ih missing goesOn

variable (fits : lookup.tableEnd < 2 ^ 32) (required : lookup.requiredEntry < 2 ^ 32)
  (sought : PathIs lookup path)
include fits required sought

theorem blockTerm_ends {byte : UInt8} {extra fuel : Nat} {name : Name} (stored : lookup.table opcode = byte)
    (block : termOf byte = some .scopeOrDevice)
    (room : LengthFits extra (packageLength extra name bytes))
    (package : Package lookup (opcode + 1) extra name bytes) (within : pointer < path.length)
    (missing : counted < lookup.requiredEntry) (level : depth ≤ deepest + 1)
    (inside : depth ≤ deepest → ∀ total, total < lookup.requiredEntry → LoopEnds
        (scopeTerms (parseTermBody lookup fuel) (opcode + 1 + packageLength extra name bytes) fuel)
        ⟨opcode + 1 + (extra + 1) + name.encode.length, enter path pointer name.identifiers,
          2 * (depth + 1), total, result⟩
        (opcode + 1 + packageLength extra name bytes)
        (look deepest lookup.requiredEntry visits total)) :
    TermEnds (parseTermBody lookup (fuel + 1)) ⟨opcode, pointer, 2 * depth, counted, result⟩
      (opcode + 1 + packageLength extra name bytes)
      (look deepest lookup.requiredEntry
        (⟨⟨opcode, qualified⟩, depth, path.drop pointer = name.identifiers⟩ :: visits) counted) := by
  have inTable := package.inside
  have nameEnd := package.nameEnd
  have limits := deepest_val
  have nestings := maxNesting_val
  have limit : 2 * depth < maxNesting := by omega
  have first := encode_pos name
  apply parseTermBody_ends fits stored block (by omega) limit
  by_cases shallow : depth ≤ deepest
  · rw [look_object shallow]
    exact parseScopeOrDevice_ends fits required sought room package (by omega) within missing
      (inside shallow)
  · rw [look_tooDeep (not_le.mp shallow)]
    exact parseScopeOrDevice_tooDeep (by omega)

theorem methodTerm_ends {extra fuel : Nat} {name : Name} (stored : lookup.table opcode = 0x14)
    (room : LengthFits extra (packageLength extra name bytes))
    (package : Package lookup (opcode + 1) extra name bytes) (within : pointer < path.length)
    (missing : counted < lookup.requiredEntry) (level : depth ≤ deepest + 1) :
    TermEnds (parseTermBody lookup (fuel + 1)) ⟨opcode, pointer, 2 * depth, counted, result⟩
      (opcode + 1 + packageLength extra name bytes)
      (look deepest lookup.requiredEntry
        [⟨⟨opcode, qualified⟩, depth, path.drop pointer = name.identifiers⟩] counted) := by
  have inTable := package.inside
  have nameEnd := package.nameEnd
  have limits := deepest_val
  have nestings := maxNesting_val
  have limit : 2 * depth < maxNesting := by omega
  have first := encode_pos name
  have known : termOf 0x14 = some .method := rfl
  apply parseTermBody_ends fits stored known (by omega) limit
  by_cases shallow : depth ≤ deepest
  · rw [look_object shallow]
    exact parseNamedBlock_ends fits required sought room package (by omega) within missing
  · rw [look_tooDeep (not_le.mp shallow)]
    exact parseNamedBlock_tooDeep (by omega)

omit fits required sought in
def termCount : Terms → Nat
  | .nil => 0
  | .block kind _ _ _ rest => termCount rest + kind.opcode.length
  | .method _ _ _ rest => termCount rest + 1

omit fits required sought in
theorem termCount_le (terms : Terms) : termCount terms ≤ terms.encode.length := by
  induction terms with
  | nil => exact le_refl 0
  | block kind extra name inside rest _ ih =>
    rw [termCount, Terms.encode, length_append, length_append]
    omega
  | method extra name code rest ih =>
    rw [termCount, Terms.encode, length_append, length_cons]
    omega

theorem terms_run (terms : Terms) {offset fuel ends : Nat} {outer : List UInt32}
    (wellFormed : terms.WellFormed) (stored : Stored lookup offset terms.encode)
    (ending : ends = offset + terms.encode.length) (within : pointer < path.length)
    (missing : counted < lookup.requiredEntry) (level : depth ≤ deepest + 1)
    (enough : terms.encode.length ≤ fuel) :
    TermRun (parseTermBody lookup fuel) ends (termCount terms)
      ⟨offset, pointer, 2 * depth, counted, result⟩
      (look deepest lookup.requiredEntry (terms.visits path offset outer depth pointer) counted) := by
  induction terms generalizing offset fuel ends outer pointer counted depth with
  | nil => exact TermRun.done ending.symm
  | block kind extra name inside rest ihInside ihRest =>
    obtain ⟨room, wellInside, wellRest⟩ := wellFormed
    rw [Terms.encode, length_append, length_append, encodePackage_length,
      packageLength] at ending enough
    rw [Terms.encode, append_assoc] at stored
    obtain ⟨more, rfl⟩ : ∃ more, fuel = more + 1 := ⟨fuel - 1, by omega⟩
    have first := encode_pos name
    have package : Package lookup (offset + kind.opcode.length) extra name inside.encode :=
      package_of_stored stored.right.left
    have restStored : Stored lookup
        (offset + kind.opcode.length + packageLength extra name inside.encode) rest.encode := by
      have behind := stored.right.right
      rw [encodePackage_length] at behind
      exact behind
    -- the block itself, with its own opcode at this place
    have blockRun : ∀ place byte, place + 1 = offset + kind.opcode.length →
        lookup.table place = byte → termOf byte = some .scopeOrDevice →
        TermRun (parseTermBody lookup (more + 1)) ends (termCount rest + 1)
          ⟨place, pointer, 2 * depth, counted, result⟩
          (look deepest lookup.requiredEntry
            (Terms.visits path (.block kind extra name inside rest) offset outer depth pointer)
            counted) := by
      intro place byte follows stands block
      rw [Terms.visits, ← cons_append, look_append]
      rw [← follows] at package restStored ⊢
      apply TermRun.step
      · rw [ending, ← add_assoc, ← add_assoc, ← follows]
        simp only
        omega
      · apply blockTerm_ends fits required sought stands block room package within missing level
        intro shallow total before
        apply scopeTerms_ends
        · exact ihInside wellInside package.body
            (by rw [packageLength]; omega) (enter_lt within) before
            (Nat.succ_le_succ shallow) (by omega)
        · have few := termCount_le inside
          omega
      · intro total goesOn
        exact ihRest wellRest restStored (by rw [ending, packageLength]; omega) within
          (look_lt missing goesOn) level (by omega)
    cases kind with
    | scope => exact blockRun offset 0x10 rfl stored.head rfl
    | device =>
      have stands : lookup.table offset = 0x5B := stored.head
      have second : lookup.table (offset + 1) = 0x82 := stored.tail.head
      have limits := deepest_val
      have nestings := maxNesting_val
      have inTable := package.inside
      have two : BlockKind.device.opcode.length = 2 := rfl
      have prefixRun : TermEnds (parseTermBody lookup (more + 1))
          ⟨offset, pointer, 2 * depth, counted, result⟩ (offset + 1) (.goesOn counted) :=
        extPrefix_ends fits stands (by omega) (by omega)
      have before : offset < ends := by omega
      apply TermRun.step before prefixRun
      intro total same
      cases same
      exact blockRun (offset + 1) 0x82 rfl second rfl
  | method extra name code rest ih =>
    obtain ⟨room, wellRest⟩ := wellFormed
    rw [Terms.encode, length_append, length_cons, encodePackage_length, packageLength]
      at ending enough
    rw [Terms.encode, cons_append] at stored
    obtain ⟨more, rfl⟩ : ∃ more, fuel = more + 1 := ⟨fuel - 1, by omega⟩
    have package : Package lookup (offset + 1) extra name code := package_of_stored stored.tail.left
    have restStored : Stored lookup (offset + 1 + packageLength extra name code) rest.encode := by
      have behind := stored.tail.right
      rw [encodePackage_length] at behind
      exact behind
    rw [Terms.visits, ← singleton_append, look_append]
    apply TermRun.step
    · rw [ending]
      simp only
      omega
    · exact methodTerm_ends fits required sought stored.head room package within missing level
    · intro total goesOn
      exact ih wellRest restStored (by rw [ending, packageLength]; omega) within
        (look_lt missing goesOn) level (by omega)

end Loops

end OpenCore.AcpiLookupTerms
