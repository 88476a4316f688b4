import OpenCore.AcpiNesting
import OpenCore.AcpiSearchSafety

/-!
The nesting counter in every parser and in whole searches. The parsers without
terms are sequences of steady steps; the terms follow by induction on the fuel.
In an If or Else body the assumed steps say what a term that is not the last one
leaves behind: the report of the limit does not come that far, and a failure that
the body goes on behind was at a byte that is no opcode, where
`InternalAcpiParseTerm` takes its own level back.
-/

namespace OpenCore.AcpiParserNesting

open TracedAction MonitoredAction AcpiContext AcpiParser AcpiNesting

variable {lookup : Lookup} {parser : ParserName}

section Matching

theorem steady_compareCharacters (name : Nat) (indices : List Nat) :
    Steady lookup (compareCharacters lookup name indices) := by
  induction indices with
  | nil => exact steady_pure _
  | cons index rest ih =>
    apply (steady_readTable _).bind
    intro ch
    apply steady_get
    intro ctx
    apply (steady_readPath _ _).bind
    intro expected
    exact steady_ite ih (steady_pure _)

theorem steady_matchIdentifier (name : Nat) : Steady lookup (matchIdentifier lookup name) :=
  steady_compareCharacters name _

theorem steady_matchScopeName (name count : Nat) :
    Steady lookup (matchScopeName lookup name count) := by
  induction count generalizing name with
  | zero => exact steady_pure _
  | succ count ih =>
    apply steady_get
    intro ctx
    apply steady_ite (steady_setIdentifier _)
    apply (steady_matchIdentifier _).bind
    intro same
    apply steady_ite
    · exact (steady_setIdentifier _).bind fun _ => ih _
    · exact steady_setIdentifier _

theorem steady_matchWholeName (name count : Nat) :
    Steady lookup (matchWholeName lookup name count) := by
  induction count generalizing name with
  | zero => exact steady_get fun _ => steady_pure _
  | succ count ih =>
    apply steady_get
    intro ctx
    apply steady_ite (steady_pure _)
    apply (steady_matchIdentifier _).bind
    intro same
    apply steady_ite
    · exact (steady_setIdentifier _).bind fun _ => ih _
    · exact steady_pure _

theorem concludes_skipBlock (blockEnd identifier : Nat) :
    Concludes lookup parser (skipBlock blockEnd identifier) := by
  apply Concludes.seq (steady_moveOpcode _)
  apply Concludes.seq (steady_setIdentifier _)
  exact concludes_notFound

theorem concludes_finishMatch (start blockEnd identifier : Nat) :
    Concludes lookup parser (finishMatch lookup start blockEnd identifier) := by
  apply Concludes.bind steady_countEntry
  intro reached
  exact concludes_ite (concludes_foundAt _) (concludes_skipBlock _ _)

end Matching

section Skipped

theorem parseAlias_answers : Answers lookup (parseAlias lookup) := by
  apply Concludes.answers
  apply Concludes.seq steady_name
  apply Concludes.seq (steady_contextPeekBytes _)
  apply Concludes.seq steady_name
  exact concludes_notFound

theorem steady_skipPackage : Steady lookup (skipPackage lookup) := by
  apply steady_get
  intro start
  apply steady_length.bind
  intro length
  exact (steady_moveOpcode _).bind fun _ => steady_contextConsumeBytes _

theorem steady_skipString (fuel : Nat) : Steady lookup (skipString lookup fuel) := by
  induction fuel with
  | zero => exact steady_exhausted
  | succ fuel ih =>
    apply steady_contextAdvanceOpcode.bind
    intro _
    apply steady_currentByte.bind
    intro byte
    apply steady_ite ih
    exact (steady_deviceErrorIf _).bind fun _ => steady_contextConsumeBytes _

theorem steady_skipNameObject (byte : UInt8) : Steady lookup (skipNameObject lookup byte) := by
  rw [skipNameObject]
  cases integerSize byte with
  | some size => exact steady_contextConsumeBytes _
  | none =>
    apply steady_ite (steady_contextConsumeBytes _)
    apply steady_ite (steady_contextConsumeBytes _)
    apply steady_ite (steady_skipString _)
    apply steady_ite
    · exact steady_contextAdvanceOpcode.bind fun _ => steady_skipPackage
    · exact steady_deviceError

theorem parseName_answers : Answers lookup (parseName lookup) := by
  apply Concludes.answers
  apply Concludes.seq steady_name
  apply Concludes.seq (steady_contextPeekBytes _)
  apply Concludes.bind steady_currentByte
  intro byte
  apply Concludes.seq (steady_skipNameObject _)
  exact concludes_notFound

theorem parseNameAndBytes_answers (bytes : Nat) :
    Answers lookup (parseNameAndBytes lookup parser bytes) := by
  apply Concludes.answers
  apply Concludes.seq steady_name
  apply Concludes.seq (steady_contextConsumeBytes _)
  exact concludes_notFound

theorem parseEvent_answers : Answers lookup (parseEvent lookup) := by
  apply Concludes.answers
  apply Concludes.seq steady_name
  exact concludes_notFound

theorem steady_skipOperand : Steady lookup (skipOperand lookup) := by
  apply steady_currentByte.bind
  intro byte
  cases integerSize byte with
  | some size => exact steady_contextConsumeBytes _
  | none => exact steady_name.bind fun _ => steady_pure _

theorem steady_skipRegionArgument : Steady lookup (skipRegionArgument lookup) := by
  apply steady_currentByte.bind
  intro byte
  apply steady_ite
  · apply steady_contextAdvanceOpcode.bind
    intro _
    apply steady_skipOperand.bind
    intro _
    apply (steady_contextPeekBytes _).bind
    intro _
    apply steady_skipOperand.bind
    intro _
    apply (steady_contextPeekBytes _).bind
    intro _
    exact steady_name.bind fun _ => steady_pure _
  · exact steady_skipOperand

theorem parseOpRegion_answers : Answers lookup (parseOpRegion lookup) := by
  apply Concludes.answers
  apply Concludes.seq steady_name
  apply Concludes.seq steady_contextAdvanceOpcode
  apply Concludes.seq steady_skipRegionArgument
  apply Concludes.seq (steady_contextPeekBytes _)
  apply Concludes.seq steady_skipRegionArgument
  exact concludes_notFound

theorem parseSkippedPackage_answers : Answers lookup (parseSkippedPackage lookup parser) := by
  apply Concludes.answers
  apply Concludes.seq steady_skipPackage
  exact concludes_notFound

end Skipped

section Blocks

theorem steady_parseBlockEnd : Steady lookup (parseBlockEnd lookup) := by
  apply steady_get
  intro start
  apply steady_length.bind
  intro length
  exact (steady_deviceErrorIf _).bind fun _ => steady_pure _

theorem steady_deviceErrorUnlessBefore (blockEnd : Nat) :
    Steady lookup (deviceErrorUnlessBefore blockEnd) :=
  steady_get fun _ => steady_deviceErrorIf _

theorem steady_deviceErrorIfBehind (blockEnd : Nat) :
    Steady lookup (deviceErrorIfBehind blockEnd) :=
  steady_get fun _ => steady_deviceErrorIf _

theorem parseNamedBlock_answers : Answers lookup (parseNamedBlock lookup parser) := by
  apply Concludes.answers
  apply concludes_get
  intro start
  apply Concludes.bind steady_parseBlockEnd
  intro blockEnd
  apply Concludes.seq (steady_deviceErrorUnlessBefore _)
  apply Concludes.bind steady_name
  intro name
  apply Concludes.seq (steady_deviceErrorIfBehind _)
  apply Concludes.bind (steady_matchWholeName _ _)
  intro whole
  exact concludes_ite (concludes_finishMatch _ _ _) (concludes_skipBlock _ _)

theorem concludes_matchLastIdentifier (start blockEnd : Nat) (name : NamePath) :
    Concludes lookup parser (matchLastIdentifier lookup start blockEnd name) := by
  apply Concludes.seq (steady_deviceErrorIf _)
  apply concludes_get
  intro ctx
  apply Concludes.bind (steady_matchIdentifier _)
  intro same
  exact concludes_ite (concludes_finishMatch _ _ _) (concludes_skipBlock _ _)

theorem parseBankField_answers : Answers lookup (parseBankField lookup) := by
  apply Concludes.answers
  apply concludes_get
  intro start
  apply Concludes.bind steady_parseBlockEnd
  intro bankEnd
  apply Concludes.seq (steady_contextPeekBytes _)
  apply Concludes.bind steady_name
  intro name
  apply Concludes.seq (steady_deviceErrorUnlessBefore _)
  apply Concludes.seq (steady_deviceErrorIf _)
  apply Concludes.bind (steady_matchIdentifier _)
  intro same
  apply concludes_ite _ (concludes_skipBlock _ _)
  apply Concludes.seq (steady_setIdentifier _)
  apply Concludes.seq (steady_contextPeekBytes _)
  apply concludes_ite
  · apply Concludes.bind (steady_setIdentifier _)
    intro _
    apply Concludes.seq steady_name
    exact concludes_skipBlock _ _
  · apply Concludes.bind steady_name
    intro name
    apply Concludes.seq (steady_deviceErrorIfBehind _)
    exact concludes_matchLastIdentifier _ _ _

theorem parseIndexField_answers : Answers lookup (parseIndexField lookup) := by
  apply Concludes.answers
  apply concludes_get
  intro start
  apply Concludes.bind steady_parseBlockEnd
  intro fieldEnd
  apply Concludes.seq (steady_deviceErrorUnlessBefore _)
  apply Concludes.bind steady_name
  intro name
  apply Concludes.seq (steady_deviceErrorUnlessBefore _)
  apply Concludes.seq (steady_deviceErrorIf _)
  apply Concludes.bind (steady_matchIdentifier _)
  intro same
  apply concludes_ite
  · apply Concludes.bind (steady_setIdentifier _)
    intro _
    apply Concludes.seq (steady_deviceErrorIf _)
    apply Concludes.seq (steady_contextPeekBytes _)
    apply Concludes.bind steady_name
    intro name
    apply Concludes.seq (steady_deviceErrorUnlessBefore _)
    exact concludes_matchLastIdentifier _ _ _
  · apply Concludes.bind steady_name
    intro _
    exact concludes_skipBlock _ _

theorem steady_consumeIfCreateField (start bytes : Nat) :
    Steady lookup (consumeIfCreateField lookup start bytes) := by
  apply (steady_readTable _).bind
  intro opcode
  exact steady_ite (steady_contextConsumeBytes _) (steady_pure _)

theorem steady_skipIndex : Steady lookup (skipIndex lookup) := by
  apply steady_currentByte.bind
  intro byte
  cases integerSize byte with
  | some size => exact steady_contextConsumeBytes _
  | none => exact steady_pure _

theorem steady_compareNextIdentifier (name : Nat) :
    Steady lookup (compareNextIdentifier lookup name) := by
  apply steady_get
  intro ctx
  apply (steady_setIdentifier _).bind
  intro _
  apply (steady_matchIdentifier _).bind
  intro same
  have marked : Steady lookup (Action.emit [.compareNext ctx.currentIdentifier]) :=
    steady_emit trivial
  exact marked.bind fun _ => steady_pure _

theorem concludes_matchCreatedField (start name : Nat) :
    Concludes lookup parser (matchCreatedField lookup start name) := by
  apply concludes_get
  intro ctx
  apply Concludes.bind (steady_compareNextIdentifier _)
  intro same
  apply Concludes.seq (steady_setIdentifier _)
  apply concludes_ite _ concludes_notFound
  apply Concludes.bind steady_countEntry
  intro reached
  apply concludes_ite _ concludes_notFound
  apply Concludes.seq (steady_setIdentifier _)
  exact concludes_foundAt _

theorem parseCreateField_answers : Answers lookup (parseCreateField lookup) := by
  apply Concludes.answers
  apply concludes_get
  intro start
  apply Concludes.bind steady_currentByte
  intro byte
  apply concludes_ite
  · apply Concludes.bind (steady_contextConsumeBytes _)
    intro _
    apply Concludes.seq (steady_consumeIfCreateField _ _)
    apply Concludes.seq (steady_contextPeekBytes _)
    apply Concludes.seq steady_name
    exact concludes_notFound
  · apply Concludes.bind steady_name
    intro name
    apply Concludes.seq (steady_deviceErrorIf _)
    apply Concludes.bind (steady_matchIdentifier _)
    intro matched
    apply Concludes.seq (steady_contextPeekBytes _)
    apply Concludes.seq steady_skipIndex
    apply Concludes.seq (steady_consumeIfCreateField _ _)
    apply Concludes.seq (steady_contextPeekBytes _)
    apply Concludes.bind steady_name
    intro name
    apply Concludes.seq (steady_deviceErrorIf _)
    exact concludes_ite (concludes_matchCreatedField _ _) concludes_notFound

end Blocks

section Terms

variable {active : List ParserName} {ctx : Context} {body : Parser Status} {status : Status}
  {exits : Exit → View → Context → Prop} {view : View} {fuel : Nat}

/-- A parser of terms behind its entry check. A byte that is no opcode costs no
level. -/
def TermAnswers (lookup : Lookup) (body : Parser Status) : Prop :=
  ∀ (active : List ParserName) (ctx : Context), ctx.nesting = active.length →
    active.length ≤ maxNesting →
    Watches (nestingMonitor lookup) body
      (fun status view final => Answered active status view final ∧
        (status = .deviceError → termOf (lookup.table ctx.currentOpcode) = none →
          final.nesting = active.length))
      Stopped ⟨active, false⟩ ctx

theorem leaves_of_stopped {leave : Exit} (stopped : Stopped leave view ctx) :
    Leaves parser active leave view ctx := by
  obtain ⟨rfl, running⟩ := stopped
  exact running

theorem decided_of_answered
    {ctx final : Context} (answered : Answered (parser :: active) status view ctx)
    (restored : status = .notFound → final.nesting = active.length) :
    Decided parser active status view final := by
  cases status with
  | success => exact answered
  | deviceError => exact answered
  | notFound => exact ⟨answered.1, restored rfl⟩
  | outOfResources =>
    obtain ⟨rfl, outside⟩ := answered
    exact ⟨rfl, List.not_mem_of_not_mem_cons outside, Or.inl rfl⟩
  | loadError => exact answered.elim
  | invalidParameter => exact answered.elim

theorem scopeTerms_watched {scopeEnd fuel : Nat} (terms : TermAnswers lookup body)
    (nesting : ctx.nesting = active.length + 1) (within : active.length < maxNesting) :
    Watches (nestingMonitor lookup) (scopeTerms body scopeEnd fuel)
      (fun _ view final => view = ⟨parser :: active, false⟩ ∧ final.nesting = active.length + 1)
      (Leaves parser active) ⟨parser :: active, false⟩ ctx := by
  induction fuel generalizing ctx with
  | zero => exact Watches.exit rfl
  | succ fuel ih =>
    apply Watches.get_bind
    apply Watches.ite
    · intro before
      apply contextHasWork_watched.bind
      rintro _ _ _ ⟨rfl, rfl⟩
      apply Watches.bind
      · apply (terms (parser :: active) _ nesting within).mono
        · exact fun _ _ _ reached => reached
        · exact fun _ _ _ stopped => leaves_of_stopped stopped
      rintro status view final ⟨answered, -⟩
      apply Watches.ite
      · rintro rfl
        obtain ⟨rfl, nesting⟩ := answered
        exact ih nesting
      · intro other
        exact Watches.exit (decided_of_answered answered fun same => absurd same other)
    · intro _
      exact Watches.pure ⟨rfl, nesting⟩

theorem steady_startOverIf (isRootPath : Bool) : Steady lookup (startOverIf isRootPath) :=
  steady_ite (steady_setIdentifier _) (steady_pure _)

theorem scopeMatched_watched {start : Nat}
    (nesting : ctx.nesting = active.length + 1) :
    Watches (nestingMonitor lookup) (scopeMatched lookup start)
      (fun _ view final => view = ⟨parser :: active, false⟩ ∧ final.nesting = active.length + 1)
      (Leaves parser active) ⟨parser :: active, false⟩ ctx := by
  apply Watches.get_bind
  apply Watches.ite
  · intro _
    apply Watches.bind
    · apply (steady_countEntry (parser :: active) ctx nesting).mono
      · exact fun _ _ _ reached => reached
      · exact fun _ _ _ fails => leaves_of_fails fails
    rintro reached _ final ⟨rfl, nesting⟩
    apply Watches.ite
    · intro _
      have found : Watches (nestingMonitor lookup) (foundAt start)
          (fun status view _ => status = .success ∧ view = ⟨parser :: active, false⟩)
          (Leaves parser active) ⟨parser :: active, false⟩ final :=
        Watches.modify_bind (Watches.pure ⟨rfl, rfl⟩)
      apply found.bind
      rintro _ _ _ ⟨rfl, rfl⟩
      exact Watches.exit rfl
    · intro _
      exact Watches.modify ⟨rfl, nesting⟩
  · intro _
    exact Watches.pure ⟨rfl, nesting⟩

theorem parseScopeOrDevice_answers (terms : TermAnswers lookup body) :
    Answers lookup (parseScopeOrDevice lookup body fuel) := by
  apply Concludes.answers
  apply concludes_get
  intro start
  apply Concludes.bind steady_parseBlockEnd
  intro scopeEnd
  apply Concludes.seq (steady_contextPeekBytes _)
  apply Concludes.bind steady_name
  intro name
  apply Concludes.seq (steady_deviceErrorIfBehind _)
  apply Concludes.seq (steady_startOverIf _)
  apply Concludes.bind (steady_matchScopeName _ _)
  intro _ active ctx nesting within
  apply (scopeMatched_watched nesting).bind
  rintro _ _ middle ⟨rfl, nesting⟩
  apply (scopeTerms_watched terms nesting within).bind
  rintro _ _ final ⟨rfl, nesting⟩
  apply Watches.modify_bind
  exact concludes_notFound active _ nesting within

theorem skipFailed_watched :
    Watches (nestingMonitor lookup) (skipFailed status)
      (fun _ reached final => reached = view ∧ final.nesting = ctx.nesting) exits view
      ctx := by
  apply Watches.ite
  · intro _
    apply Watches.get_bind
    have skipped : Plain (.skip ctx.currentOpcode) := trivial
    have moved : Plain (.moved (ctx.currentOpcode + 1)) := trivial
    apply skipped.watched.bind
    rintro _ _ _ ⟨rfl, rfl⟩
    apply Watches.modify_bind
    apply moved.watched.mono
    · rintro _ _ _ ⟨rfl, rfl⟩
      exact ⟨rfl, rfl⟩
    · exact fun _ _ _ left => left
  · intro _
    exact Watches.pure ⟨rfl, rfl⟩

theorem enterTerm_watched :
    Watches (nestingMonitor lookup) (enterTerm status)
      (fun _ reached final => reached = view ∧ final = ctx) exits view ctx := by
  apply Watches.get_bind
  have noted : Watches (nestingMonitor lookup)
      (Action.emit (if status = .deviceError then
        [.resume ctx.currentIdentifier ctx.entriesFound] else []))
      (fun _ reached final => reached = view ∧ final = ctx) exits view ctx := by
    have plain : Plain (.resume ctx.currentIdentifier ctx.entriesFound) := trivial
    split
    · exact plain.watched
    · exact Watches.emit_nil ⟨rfl, rfl⟩
  apply noted.bind
  rintro _ _ _ ⟨rfl, rfl⟩
  exact contextHasWork_watched

theorem noteGoesOn_watched {term bodyEnd : Nat} :
    Watches (nestingMonitor lookup) (noteGoesOn term bodyEnd status)
      (fun _ reached final => reached = view ∧ final = ctx ∧
        (status = .deviceError → ctx.currentOpcode < bodyEnd → termOf (lookup.table term) = none))
      exits view ctx := by
  have plain : Plain (.goesOn term) := trivial
  apply Watches.get_bind
  split
  · apply Watches.emit
    · intro _
      trivial
    · intro unknown
      exact ⟨plain.next_eq view, rfl, fun _ _ => unknown⟩
  · next ends => exact Watches.emit_nil ⟨rfl, rfl, fun failed before => absurd ⟨failed, before⟩ ends⟩

structure BodyState (active : List ParserName) (bodyEnd : Nat) (status : Status) (view : View)
    (ctx : Context) : Prop where
  answered : Answered (.ifElse :: active) status view ctx
  goesOn : status = .deviceError → ctx.currentOpcode < bodyEnd →
    ctx.nesting = active.length + 1

theorem answered_cases (answered : Answered (.ifElse :: active) status view ctx) :
    view = ⟨.ifElse :: active, false⟩ ∧
      (status = .success ∨ status = .notFound ∧ ctx.nesting = active.length + 1 ∨
        status = .deviceError) := by
  cases status with
  | success => exact ⟨answered, Or.inl rfl⟩
  | notFound => exact ⟨answered.1, Or.inr (Or.inl ⟨rfl, answered.2⟩)⟩
  | deviceError => exact ⟨answered, Or.inr (Or.inr rfl)⟩
  | outOfResources => exact absurd List.mem_cons_self answered.2
  | loadError => exact answered.elim
  | invalidParameter => exact answered.elim

theorem answered_congr {ctx final : Context} (answered : Answered active status view ctx)
    (kept : final.nesting = ctx.nesting) : Answered active status view final := by
  cases status with
  | notFound => exact ⟨answered.1, kept.trans answered.2⟩
  | success => exact answered
  | deviceError => exact answered
  | outOfResources => exact answered
  | loadError => exact answered
  | invalidParameter => exact answered

theorem bodyTerms_watched {bodyEnd fuel : Nat} (terms : TermAnswers lookup body)
    (within : active.length < maxNesting)
    (before : BodyState active bodyEnd status ⟨.ifElse :: active, false⟩ ctx) :
    Watches (nestingMonitor lookup) (bodyTerms body bodyEnd fuel status)
      (BodyState active bodyEnd) (Leaves .ifElse active) ⟨.ifElse :: active, false⟩ ctx := by
  induction fuel generalizing status ctx with
  | zero => exact Watches.exit rfl
  | succ fuel ih =>
    apply Watches.get_bind
    apply Watches.ite
    · rintro ⟨missing, inside⟩
      have nesting : ctx.nesting = active.length + 1 := by
        obtain ⟨-, found | ⟨-, counted⟩ | failed⟩ := answered_cases before.answered
        · exact absurd found missing
        · exact counted
        · exact before.goesOn failed inside
      apply enterTerm_watched.bind
      rintro _ _ _ ⟨rfl, rfl⟩
      apply Watches.bind
      · apply (terms (.ifElse :: active) _ nesting within).mono
        · exact fun _ _ _ reached => reached
        · exact fun _ _ _ stopped => leaves_of_stopped stopped
      rintro next view final ⟨answered, unknown⟩
      obtain ⟨rfl, -⟩ := answered_cases answered
      apply skipFailed_watched.bind
      rintro _ _ skipped ⟨rfl, kept⟩
      apply noteGoesOn_watched.bind
      rintro _ _ _ ⟨rfl, rfl, opcode⟩
      apply ih
      constructor
      · exact answered_congr answered kept
      · -- the body goes on behind a byte that is no opcode
        intro failed ahead
        exact kept.trans (unknown failed (opcode failed ahead))
    · intro _
      exact Watches.pure before

theorem bodyState_start {bodyEnd : Nat} (nesting : ctx.nesting = active.length + 1) :
    BodyState active bodyEnd .notFound ⟨.ifElse :: active, false⟩ ctx :=
  ⟨⟨rfl, nesting⟩, nofun⟩

theorem parseElse_concludes {fuel identifier : Nat} (terms : TermAnswers lookup body) :
    Concludes lookup .ifElse (parseElse lookup body fuel identifier) := by
  apply Concludes.seq steady_contextAdvanceOpcode
  apply Concludes.bind steady_parseBlockEnd
  intro elseEnd active ctx nesting within
  apply (bodyTerms_watched terms within (bodyState_start nesting)).bind
  intro status view final reached
  obtain ⟨rfl, endings⟩ := answered_cases reached.answered
  apply Watches.get_bind
  apply Watches.ite
  · intro _
    exact Watches.pure rfl
  intro passed
  apply Watches.ite
  · intro _
    exact Watches.modify_bind (Watches.pure rfl)
  · intro missing
    have nesting : final.nesting = active.length + 1 := by
      rcases endings with found | ⟨-, counted⟩ | failed
      · exact absurd found missing
      · exact counted
      · exact absurd (Or.inr failed) passed
    apply Watches.modify_bind
    exact concludes_notFound active _ nesting within

theorem steady_clampOpcode (bodyEnd : Nat) : Steady lookup (clampOpcode bodyEnd) :=
  steady_get fun _ => steady_ite (steady_moveOpcode _) (steady_pure _)

theorem parseIfElse_answers (terms : TermAnswers lookup body) :
    Answers lookup (parseIfElse lookup body fuel) := by
  apply Concludes.answers
  apply concludes_get
  intro start
  apply Concludes.bind steady_parseBlockEnd
  intro ifEnd active ctx nesting within
  apply (bodyTerms_watched terms within (bodyState_start nesting)).bind
  intro status view final reached
  obtain ⟨rfl, endings⟩ := answered_cases reached.answered
  apply Watches.ite
  · intro _
    exact Watches.pure rfl
  intro passed
  apply Watches.ite
  · intro _
    exact Watches.modify_bind (Watches.pure rfl)
  · intro missing
    have nesting : final.nesting = active.length + 1 := by
      rcases endings with found | ⟨-, counted⟩ | failed
      · exact absurd found missing
      · exact counted
      · exact absurd failed passed
    have rest : Concludes lookup .ifElse (do
        clampOpcode ifEnd
        setIdentifier start.currentIdentifier
        contextPeekBytes lookup 1
        let byte ← currentByte lookup
        if byte = amlElseOp then parseElse lookup body fuel start.currentIdentifier
        else do
          contextDecreaseNesting
          pure .notFound) := by
      apply Concludes.seq (steady_clampOpcode _)
      apply Concludes.seq (steady_setIdentifier _)
      apply Concludes.seq (steady_contextPeekBytes _)
      apply Concludes.bind steady_currentByte
      intro byte
      exact concludes_ite (parseElse_concludes terms) concludes_notFound
    exact rest active final nesting within

theorem parseTermOf_answers (terms : TermAnswers lookup body)
    (term : Term) : Answers lookup (parseTermOf lookup body fuel term) := by
  cases term with
  | aliasName => exact parseAlias_answers
  | scopeOrDevice => exact parseScopeOrDevice_answers terms
  | name => exact parseName_answers
  | ignored =>
    intro active ctx nesting limit
    exact Watches.pure ⟨rfl, nesting⟩
  | bankField => exact parseBankField_answers
  | createField => exact parseCreateField_answers
  | external => exact parseNameAndBytes_answers 2
  | opRegion => exact parseOpRegion_answers
  | powerRes => exact parseSkippedPackage_answers
  | processor => exact parseSkippedPackage_answers
  | thermalZone => exact parseSkippedPackage_answers
  | method => exact parseNamedBlock_answers
  | ifElse => exact parseIfElse_answers terms
  | event => exact parseEvent_answers
  | field => exact parseNamedBlock_answers
  | indexField => exact parseIndexField_answers
  | mutex => exact parseNameAndBytes_answers 1

/-- The switch, inside of `InternalAcpiParseTerm`. -/
theorem dispatchTerm_watched {opcode : UInt8} (terms : TermAnswers lookup body)
    (nesting : ctx.nesting = active.length + 1) (within : active.length < maxNesting) :
    Watches (nestingMonitor lookup) (dispatchTerm lookup body fuel opcode)
      (Answered (.term :: active)) (Leaves .term active) ⟨.term :: active, false⟩ ctx := by
  rw [dispatchTerm]
  cases termOf opcode with
  | none => exact Watches.pure rfl
  | some term =>
    apply Watches.bind
    · apply (steady_contextAdvanceOpcode (.term :: active) ctx nesting).mono
      · exact fun _ _ _ reached => reached
      · exact fun _ _ _ fails => leaves_of_fails fails
    rintro _ _ final ⟨rfl, nesting⟩
    apply (parseTermOf_answers terms term (.term :: active) final nesting within).mono
    · exact fun _ _ _ answered => answered
    · exact fun _ _ _ stopped => leaves_of_stopped stopped

theorem parseTermBody_unknown {ctx final : Context}
    (unknown : termOf (lookup.table ctx.currentOpcode) = none) (limit : ctx.nesting ≤ maxNesting)
    (failed : (parseTermBody lookup fuel ctx).1 = (.ok .deviceError, final)) :
    final.nesting = ctx.nesting := by
  cases fuel with
  | zero => cases failed
  | succ fuel =>
    have refuses : ∀ opcode, termOf opcode = none →
        dispatchTerm lookup (parseTermBody lookup fuel) fuel opcode = pure .deviceError := by
      intro opcode none
      rw [dispatchTerm, none]
    by_cases behind : maxNesting < (ctx.nesting + 1) % 4294967296
    · simp [parseTermBody, function, leaving, Action.recover, Action.ending,
        contextIncreaseNesting, Action.get, Action.emit, Action.modify, bind, Action.bind,
        returnStatus, Action.exit, behind] at failed
    · simp [parseTermBody, function, leaving, Action.recover, Action.ending,
        contextIncreaseNesting, Action.get, Action.emit, Action.modify, bind, Action.bind,
        behind, currentByte, readTable, refuses _ unknown, pure, Action.pure,
        contextDecreaseNesting] at failed
      rw [← failed]
      have small : maxNesting < 2 ^ 31 := by decide
      simp only
      omega

theorem parseTermBody_answers (fuel : Nat) : TermAnswers lookup (parseTermBody lookup fuel) := by
  induction fuel with
  | zero =>
    intro active ctx nesting limit
    exact Watches.exit ⟨rfl, rfl⟩
  | succ fuel ih =>
    intro active ctx nesting limit
    apply Watches.and
    · apply function_watched
      apply call_watched nesting limit
      intro called nesting within
      apply Watches.bind
      · apply (steady_currentByte (.term :: active) called nesting).mono
        · exact fun _ _ _ reached => reached
        · exact fun _ _ _ fails => leaves_of_fails fails
      rintro opcode _ final ⟨rfl, nesting⟩
      apply (dispatchTerm_watched ih nesting within).bind
      intro status view final answered
      apply Watches.modify_bind
      apply Watches.pure
      apply decided_of_answered answered
      rintro rfl
      exact decreased answered.2 within
    · rintro status final ended rfl unknown
      rw [← nesting]
      apply parseTermBody_unknown unknown _ ended
      rw [nesting]
      exact limit

end Terms

section Search

variable {ctx : Context}

theorem aborted_iff {status : Status} {view : View} (answered : Answered [] status view ctx) :
    view.aborted = true ↔ status = .outOfResources := by
  cases status with
  | success =>
    obtain rfl := answered
    exact iff_of_false nofun nofun
  | deviceError =>
    obtain rfl := answered
    exact iff_of_false nofun nofun
  | notFound =>
    obtain ⟨rfl, -⟩ := answered
    exact iff_of_false nofun nofun
  | outOfResources =>
    obtain ⟨rfl, -⟩ := answered
    exact iff_of_true rfl rfl
  | loadError => exact answered.elim
  | invalidParameter => exact answered.elim

theorem findTerms_watched {termFuel fuel : Nat}
    (nesting : ctx.nesting = 0) :
    Watches (nestingMonitor lookup) (findTerms lookup termFuel fuel)
      (fun status view _ => view.aborted = true ↔ status = .outOfResources) Stopped ⟨[], false⟩
      ctx := by
  induction fuel generalizing ctx with
  | zero => exact Watches.exit ⟨rfl, rfl⟩
  | succ fuel ih =>
    apply Watches.get_bind
    apply Watches.ite
    · intro _
      have searched : Plain .search := trivial
      apply searched.watched.bind
      rintro _ _ _ ⟨rfl, rfl⟩
      apply Watches.bind
      · apply contextHasWork_watched.bind
        rintro _ _ _ ⟨rfl, rfl⟩
        exact parseTermBody_answers termFuel [] _ nesting (Nat.zero_le _)
      rintro status view final ⟨answered, -⟩
      apply Watches.ite
      · rintro rfl
        obtain ⟨rfl, nesting⟩ := answered
        exact ih nesting
      · intro _
        exact Watches.pure (aborted_iff answered)
    · intro _
      exact Watches.pure (iff_of_false nofun nofun)

theorem acpiFindEntryInMemory_watched (search : Search) (fuel : Nat) :
    Watches (nestingMonitor search.lookup) (search.acpiFindEntryInMemory fuel)
      (fun status view _ => view.aborted = true ↔ status = .outOfResources) Stopped ⟨[], false⟩
      Search.start := by
  apply Watches.ite
  · intro _
    exact Watches.pure (iff_of_false nofun nofun)
  intro _
  have header : Watches (nestingMonitor search.lookup) search.readLength
      (fun _ view final => view = ⟨[], false⟩ ∧ final = Search.start) Stopped ⟨[], false⟩
      Search.start := by
    apply Watches.ite
    · intro _
      exact Watches.pure ⟨rfl, rfl⟩
    · intro _ _
      exact ⟨⟨trivial, trivial, trivial, trivial, trivial, trivial⟩, rfl, rfl⟩
  apply header.bind
  rintro _ _ _ ⟨rfl, rfl⟩
  apply Watches.ite
  · intro _
    exact Watches.pure (iff_of_false nofun nofun)
  intro _
  apply Watches.ite
  · intro _
    exact Watches.pure (iff_of_false nofun nofun)
  · intro _
    exact findTerms_watched rfl

end Search

section Kept

variable {marks : List Mark} {view : View}

theorem active_foldl (view : View) (marks : List Mark) :
    (marks.foldl View.next view).active = marks.foldl activeStep view.active := by
  induction marks generalizing view with
  | nil => rfl
  | cons mark rest ih => exact ih (view.next mark)

theorem throughout_active {property : List ParserName → Mark → Prop}
    (all : Throughout activeStep property view.active marks) :
    Throughout View.next (fun view => property view.active) view marks := by
  induction marks generalizing view with
  | nil => trivial
  | cons mark rest ih => exact ⟨all.1, ih all.2⟩

theorem activeParsers_eq (marks : List Mark) :
    (marks.foldl View.next ⟨[], false⟩).active = activeParsers marks :=
  active_foldl ⟨[], false⟩ marks

theorem reported_next (view : View) : (view.next (.left .outOfResources)).aborted = true := by
  simp [View.next]

theorem aborted_next {mark : Mark} (aborted : view.aborted = true) :
    (view.next mark).aborted = true := by
  simp [View.next, aborted]

theorem no_call_of_aborted (aborted : view.aborted = true)
    (keeps : Throughout View.next View.Keeps view marks) :
    (∀ parser nesting, .called parser nesting ∉ marks) ∧
      (marks.foldl View.next view).aborted = true := by
  induction marks generalizing view with
  | nil => exact ⟨fun _ _ => List.not_mem_nil, aborted⟩
  | cons mark rest ih =>
    obtain ⟨none, final⟩ := ih (aborted_next aborted) keeps.2
    refine ⟨?_, final⟩
    intro parser nesting member
    rcases List.mem_cons.mp member with rfl | member
    · exact absurd (aborted.symm.trans keeps.1.1) (by decide)
    · exact none parser nesting member

theorem deep_of_report (running : view.aborted = false)
    (keeps : Throughout View.next View.Keeps view marks)
    (reported : .left .outOfResources ∈ marks) :
    ∃ front rest, marks = front ++ rest ∧
      maxNesting < (front.foldl View.next view).active.length := by
  induction marks generalizing view with
  | nil => exact absurd reported List.not_mem_nil
  | cons mark rest ih =>
    by_cases first : mark = .left .outOfResources
    · subst first
      rcases keeps.1.1 rfl with aborted | deep
      · exact absurd (aborted.symm.trans running) (by decide)
      · exact ⟨[], _, rfl, deep⟩
    · have still : (view.next mark).aborted = false := by
        simp [View.next, running, first]
      have later : .left .outOfResources ∈ rest := by
        rcases List.mem_cons.mp reported with same | later
        · exact absurd same.symm first
        · exact later
      obtain ⟨front, behind, split, deep⟩ := ih still keeps.2 later
      exact ⟨mark :: front, behind, congrArg (mark :: ·) split, deep⟩

theorem report_of_aborted (running : view.aborted = false)
    (aborted : (marks.foldl View.next view).aborted = true) :
    .left .outOfResources ∈ marks := by
  induction marks generalizing view with
  | nil => exact absurd (aborted.symm.trans running) (by decide)
  | cons mark rest ih =>
    by_cases first : mark = .left .outOfResources
    · rw [first]
      exact List.mem_cons_self
    · have still : (view.next mark).aborted = false := by
        simp [View.next, running, first]
      exact List.mem_cons_of_mem mark (ih still aborted)

/-- What a search promises of its nesting: every parser is called with the counter
at the number of active parsers, the limit is reported only where more parsers
than it allows are active, and its report ends the search. -/
structure NestingKept (marks : List Mark) (result : Except Exit Status) : Prop where
  counted : ∀ front parser nesting rest, marks = front ++ .called parser nesting :: rest →
    nesting = (activeParsers front).length
  limited : result = .ok .outOfResources ∨ .left .outOfResources ∈ marks →
    ∃ front rest, marks = front ++ rest ∧ maxNesting < (activeParsers front).length
  aborts : ∀ front rest, marks = front ++ .left .outOfResources :: rest →
    (∀ parser nesting, .called parser nesting ∉ rest) ∧ result = .ok .outOfResources

/-- The nesting is kept in every search whose steps keep the counter in order. -/
theorem acpiFindEntryInMemory_nesting (search : Search) (fuel : Nat)
    (met : Throughout activeStep (StepMeets search.lookup) [] (search.trace fuel)) :
    NestingKept (search.trace fuel) ((search.acpiFindEntryInMemory fuel).result Search.start) := by
  have assumed : Throughout View.next (fun view => StepMeets search.lookup view.active)
      ⟨[], false⟩ (search.trace fuel) := throughout_active met
  obtain ⟨keeps, ended⟩ := acpiFindEntryInMemory_watched search fuel assumed
  change Throughout View.next View.Keeps ⟨[], false⟩ (search.trace fuel) at keeps
  change Outcome _ _ ((search.acpiFindEntryInMemory fuel).result Search.start, _) at ended
  -- a search whose limit was reported ends with the report
  have reports : ((search.trace fuel).foldl View.next ⟨[], false⟩).aborted = true ↔
      (search.acpiFindEntryInMemory fuel).result Search.start = .ok .outOfResources := by
    rcases result : (search.acpiFindEntryInMemory fuel).result Search.start with leave | status
    · rw [result] at ended
      refine iff_of_false ?_ nofun
      exact fun aborted => absurd (aborted.symm.trans ended.2) (by decide)
    · rw [result] at ended
      rw [Except.ok.injEq]
      exact ended
  constructor
  · intro front parser nesting rest split
    rw [split] at keeps
    rw [← activeParsers_eq]
    exact keeps.at.2
  · intro reported
    have inside : .left .outOfResources ∈ search.trace fuel := by
      rcases reported with returned | inside
      · exact report_of_aborted rfl (reports.mpr returned)
      · exact inside
    obtain ⟨front, rest, split, deep⟩ := deep_of_report rfl keeps inside
    rw [activeParsers_eq] at deep
    exact ⟨front, rest, split, deep⟩
  · intro front rest split
    have behind := keeps
    rw [split, throughout_append] at behind
    obtain ⟨none, aborted⟩ := no_call_of_aborted (reported_next _) behind.2.2
    refine ⟨none, reports.mp ?_⟩
    rw [split, List.foldl_append]
    exact aborted

/-- An If body that starts with an operator the parser does not know and ends with
a Mutex. -/
def unknownOpcodeTerms : List UInt8 :=
  [0xA0, 0x08, 0x93, 0x01, 0x41, 0x5F, 0x5F, 0x5F, 0x00, 0x00]

theorem unknownOpcode_nesting :
    NestingKept ((AcpiSearchSafety.searchIn unknownOpcodeTerms).trace 20)
      (((AcpiSearchSafety.searchIn unknownOpcodeTerms).acpiFindEntryInMemory 20).result
        Search.start) :=
  acpiFindEntryInMemory_nesting _ _ (by decide)

/-- An If body with `Name (A, B)`, whose object `ParseName` does not know: it
leaves without giving its level back, and the body goes on behind it. -/
def nameInIfTerms : List UInt8 :=
  [0xA0, 0x0B, 0x08, 0x41, 0x5F, 0x5F, 0x5F, 0x42, 0x5F, 0x5F, 0x5F, 0x00, 0x00]

theorem nameInIf_nesting_lost :
    ¬ NestingKept ((AcpiSearchSafety.searchIn nameInIfTerms).trace 20)
      (((AcpiSearchSafety.searchIn nameInIfTerms).acpiFindEntryInMemory 20).result
        Search.start) := by
  intro kept
  have split : (AcpiSearchSafety.searchIn nameInIfTerms).trace 20 =
      ((AcpiSearchSafety.searchIn nameInIfTerms).trace 20).take 32 ++ .called .term 3 ::
        ((AcpiSearchSafety.searchIn nameInIfTerms).trace 20).drop 33 := by
    decide
  have counted : 3 =
      (activeParsers (((AcpiSearchSafety.searchIn nameInIfTerms).trace 20).take 32)).length :=
    kept.counted _ _ _ _ split
  exact absurd counted (by decide)

end Kept

end OpenCore.AcpiParserNesting
