import OpenCore.AcpiParser
import OpenCore.MonitoredAction

/-!
The nesting counter against the parsers that are active. The trace of a run calls
and leaves parsers, so the active ones are a stack that can be read off any part
of it. The monitor keeps this stack, and whether the nesting limit was reported;
a call must find the counter at the height of the stack, and behind the report
there must be no call. Every parser without terms of its own keeps the counter
and the stack in step, or leaves with a failure.
-/

namespace OpenCore.AcpiNesting

open TracedAction MonitoredAction AcpiContext AcpiParser

def activeStep (active : List ParserName) : Mark → List ParserName
  | .called parser _ => parser :: active
  | .left _ => active.tail
  | _ => active

def activeParsers (marks : List Mark) : List ParserName := marks.foldl activeStep []

/-- The steps that keep the counter in order: at the limit neither a name nor a
length is parsed, and nothing inside an If or Else; a body that goes on behind a
failed term has failed at a byte that is no opcode. -/
def StepMeets (lookup : Lookup) (active : List ParserName) : Mark → Prop
  | .called parser nesting =>
    maxNesting ≤ nesting →
      parser ≠ .nameString ∧ parser ≠ .pkgLength ∧ .ifElse ∉ active
  | .goesOn term => termOf (lookup.table term) = none
  | _ => True

instance (lookup : Lookup) (active : List ParserName) : DecidablePred (StepMeets lookup active) :=
  fun mark => match mark with
  | .called _ _ => inferInstanceAs (Decidable (_ → _))
  | .goesOn term => inferInstanceAs (Decidable (termOf (lookup.table term) = none))
  | .tableRead _ | .pathRead _ | .moved _ | .entered _ _ _ | .left _ | .headerLength | .search
  | .compareNext _ | .skip _ | .resume _ _ => .isTrue trivial

structure View where
  active : List ParserName
  aborted : Bool

def View.next (view : View) (mark : Mark) : View where
  active := activeStep view.active mark
  aborted := view.aborted || decide (mark = .left .outOfResources)

/-- Calls at the height of the stack and before the report; the report by a
parser behind the limit, handed on by the others. -/
def View.Keeps (view : View) : Mark → Prop
  | .called _ nesting => view.aborted = false ∧ nesting = view.active.length
  | .left status =>
    (status = .outOfResources → view.aborted = true ∨ maxNesting < view.active.length) ∧
      (view.aborted = true → status = .outOfResources)
  | _ => True

def nestingMonitor (lookup : Lookup) : Monitor Mark View where
  next := View.next
  assumed := fun view => StepMeets lookup view.active
  guaranteed := View.Keeps

variable {lookup : Lookup} {α β : Type}

def Fails (active : List ParserName) (leave : Exit) (view : View) (_ : Context) : Prop :=
  match leave with
  | .returned status => status = .deviceError ∧ view = ⟨active, false⟩
  | .exhausted => view.aborted = false

/-- The action calls and leaves parsers in pairs, and ends with the counter where
it was unless it fails. -/
def Steady (lookup : Lookup) (action : Parser α) : Prop :=
  ∀ (active : List ParserName) (ctx : Context), ctx.nesting = active.length →
    Watches (nestingMonitor lookup) action
      (fun _ view final => view = ⟨active, false⟩ ∧ final.nesting = active.length)
      (Fails active) ⟨active, false⟩ ctx

section Steps

variable {exits : Exit → View → Context → Prop} {mark : Mark} {ctx : Context} {view : View}

theorem steady_pure (value : α) : Steady lookup (pure value : Parser α) := by
  intro active ctx nesting
  exact Watches.pure ⟨rfl, nesting⟩

theorem Steady.bind {action : Parser α} {next : α → Parser β} (head : Steady lookup action)
    (rest : ∀ value, Steady lookup (next value)) : Steady lookup (action >>= next) := by
  intro active ctx nesting
  apply (head active ctx nesting).bind
  rintro value _ final ⟨rfl, nesting⟩
  exact rest value active final nesting

theorem steady_get {next : Context → Parser β} (rest : ∀ ctx, Steady lookup (next ctx)) :
    Steady lookup (Action.get >>= next) := by
  intro active ctx nesting
  exact Watches.get_bind (rest ctx active ctx nesting)

theorem steady_ite {condition : Prop} [Decidable condition] {left right : Parser α}
    (whenTrue : Steady lookup left) (whenFalse : Steady lookup right) :
    Steady lookup (if condition then left else right) := by
  split
  · exact whenTrue
  · exact whenFalse

theorem steady_modify {change : Context → Context}
    (kept : ∀ ctx, (change ctx).nesting = ctx.nesting) :
    Steady lookup (Action.modify change) := by
  intro active ctx nesting
  exact Watches.modify ⟨rfl, (kept ctx).trans nesting⟩

theorem steady_exhausted : Steady lookup (exhausted : Parser α) := by
  intro active ctx nesting
  exact Watches.exit rfl

theorem steady_deviceError : Steady lookup (returnStatus .deviceError : Parser α) := by
  intro active ctx nesting
  exact Watches.exit ⟨rfl, rfl⟩

def Plain : Mark → Prop
  | .called _ _ | .left _ => False
  | _ => True

theorem Plain.next_eq (plain : Plain mark) (view : View) : view.next mark = view := by
  cases mark with
  | called => exact plain.elim
  | left => exact plain.elim
  | _ => simp [View.next, activeStep]

theorem Plain.keeps (plain : Plain mark) (view : View) : view.Keeps mark := by
  cases mark with
  | called => exact plain.elim
  | left => exact plain.elim
  | _ => trivial

theorem Plain.watched (plain : Plain mark) :
    Watches (nestingMonitor lookup) (Action.emit [mark])
      (fun _ reached final => reached = view ∧ final = ctx) exits view ctx := by
  apply Watches.emit
  · intro _
    exact plain.keeps view
  · intro _
    exact ⟨plain.next_eq view, rfl⟩

theorem steady_emit (plain : Plain mark) : Steady lookup (Action.emit [mark]) := by
  intro active ctx nesting
  apply plain.watched.mono
  · rintro _ _ _ ⟨rfl, rfl⟩
    exact ⟨rfl, nesting⟩
  · exact fun _ _ _ fails => fails

theorem steady_readTable (offset : Nat) : Steady lookup (readTable lookup offset) := by
  have observed : Steady lookup (Action.emit [.tableRead offset]) := steady_emit trivial
  exact observed.bind fun _ => steady_pure _

theorem steady_currentByte : Steady lookup (currentByte lookup) :=
  steady_get fun _ => steady_readTable _

theorem steady_readPath (identifier index : Nat) :
    Steady lookup (readPath lookup identifier index) := by
  have observed : Steady lookup (Action.emit [.pathRead identifier]) := steady_emit trivial
  exact observed.bind fun _ => steady_pure _

theorem steady_moveOpcode (opcode : Nat) : Steady lookup (moveOpcode opcode) := by
  apply Steady.bind
  · exact steady_modify fun _ => rfl
  · intro _
    exact steady_emit trivial

theorem steady_setIdentifier (identifier : Nat) : Steady lookup (setIdentifier identifier) :=
  steady_modify fun _ => rfl

theorem contextHasWork_watched :
    Watches (nestingMonitor lookup) contextHasWork
      (fun _ reached final => reached = view ∧ final = ctx) exits view ctx := by
  have plain : Plain
      (.entered ctx.currentOpcode ctx.currentIdentifier ctx.entriesFound) := trivial
  exact Watches.get_bind plain.watched

theorem steady_deviceErrorIf (condition : Bool) : Steady lookup (deviceErrorIf condition) :=
  steady_ite steady_deviceError (steady_pure _)

theorem steady_contextPeekBytes (bytes : Nat) : Steady lookup (contextPeekBytes lookup bytes) :=
  steady_get fun _ => steady_deviceErrorIf _

theorem steady_contextConsumeBytes (bytes : Nat) :
    Steady lookup (contextConsumeBytes lookup bytes) :=
  (steady_contextPeekBytes bytes).bind fun _ => steady_get fun _ => steady_moveOpcode _

theorem steady_contextAdvanceOpcode : Steady lookup (contextAdvanceOpcode lookup) :=
  steady_get fun _ => (steady_deviceErrorIf _).bind fun _ => steady_moveOpcode _

theorem steady_countEntry : Steady lookup (countEntry lookup) := by
  apply Steady.bind
  · exact steady_modify fun _ => rfl
  · intro _
    exact steady_get fun _ => steady_pure _

end Steps

section Names

variable {action : Parser α}

theorem steady_skipNamePrefix (fuel : Nat) (isRootPath : Bool) :
    Steady lookup (skipNamePrefix lookup fuel isRootPath) := by
  induction fuel generalizing isRootPath with
  | zero => exact steady_exhausted
  | succ fuel ih =>
    apply steady_currentByte.bind
    intro byte
    apply steady_ite
    · exact steady_contextAdvanceOpcode.bind fun _ => ih _
    · exact steady_pure _

theorem steady_parseNameSegments (isRootPath : Bool) :
    Steady lookup (parseNameSegments lookup isRootPath) := by
  have moved : ∀ opcode (name : NamePath),
      Steady lookup (do moveOpcode opcode; pure name : Parser NamePath) :=
    fun opcode name => (steady_moveOpcode opcode).bind fun _ => steady_pure name
  apply steady_currentByte.bind
  intro byte
  apply steady_ite
  · exact steady_get fun _ => moved _ _
  apply steady_ite
  · apply steady_contextAdvanceOpcode.bind
    intro _
    exact (steady_contextPeekBytes _).bind fun _ => steady_get fun _ => moved _ _
  apply steady_ite
  · apply steady_contextAdvanceOpcode.bind
    intro _
    apply steady_currentByte.bind
    intro count
    exact (steady_contextPeekBytes _).bind fun _ => steady_get fun _ => moved _ _
  · exact (steady_contextPeekBytes _).bind fun _ => steady_get fun _ => moved _ _

theorem steady_pkgLengthBytes (base : Nat) (indices : List Nat) :
    Steady lookup (pkgLengthBytes lookup base indices) := by
  induction indices with
  | nil => exact steady_pure _
  | cons index rest ih =>
    apply (steady_readTable _).bind
    intro byte
    exact ih.bind fun _ => steady_pure _

theorem steady_parsePkgLengthBytes (leadByte : UInt8) :
    Steady lookup (parsePkgLengthBytes lookup leadByte) := by
  apply steady_ite
  · apply (steady_contextPeekBytes _).bind
    intro _
    apply steady_get
    intro ctx
    apply (steady_pkgLengthBytes _ _).bind
    intro total
    exact (steady_contextConsumeBytes _).bind fun _ => steady_pure _
  · exact steady_pure _

theorem called_next (active : List ParserName) (parser : ParserName) (nesting : Nat) :
    View.next ⟨active, false⟩ (.called parser nesting) = ⟨parser :: active, false⟩ := by
  simp [View.next, activeStep]

theorem left_next (active : List ParserName) (parser : ParserName) (status : Status)
    (aborted : Bool) :
    View.next ⟨parser :: active, aborted⟩ (.left status) =
      ⟨active, aborted || decide (status = .outOfResources)⟩ := by
  simp [View.next, activeStep]

structure Refused (parser : ParserName) (active : List ParserName) (leave : Exit) (view : View)
    (ctx : Context) : Prop where
  leave : leave = .returned .outOfResources
  view : view = ⟨parser :: active, false⟩
  notName : parser ≠ .nameString
  notLength : parser ≠ .pkgLength
  outside : .ifElse ∉ active
  limit : maxNesting ≤ active.length

theorem contextIncreaseNesting_watched {parser : ParserName} {active : List ParserName}
    {ctx : Context} (nesting : ctx.nesting = active.length)
    (limit : parser = .nameString ∨ parser = .pkgLength ∨ active.length ≤ maxNesting) :
    Watches (nestingMonitor lookup) (contextIncreaseNesting parser)
      (fun _ view final => view = ⟨parser :: active, false⟩ ∧
        final.nesting = active.length + 1 ∧ active.length < maxNesting)
      (Refused parser active) ⟨active, false⟩ ctx := by
  apply Watches.get_bind
  have marked : Watches (nestingMonitor lookup) (Action.emit [.called parser ctx.nesting])
      (fun _ view final => view = ⟨parser :: active, false⟩ ∧ final = ctx ∧
        (maxNesting ≤ active.length →
          parser ≠ .nameString ∧ parser ≠ .pkgLength ∧ .ifElse ∉ active))
      (Refused parser active) ⟨active, false⟩ ctx := by
    apply Watches.emit
    · intro _
      exact ⟨rfl, nesting⟩
    · intro met
      refine ⟨called_next _ _ _, rfl, ?_⟩
      rw [← nesting]
      exact met
  apply marked.bind
  rintro _ _ ctx ⟨rfl, rfl, met⟩
  apply Watches.modify_bind
  apply Watches.get_bind
  have bounded : active.length ≤ maxNesting := by
    by_contra behind
    obtain ⟨notName, notLength, -⟩ := met (by omega)
    rcases limit with isName | isLength | within
    · exact notName isName
    · exact notLength isLength
    · exact behind within
  have counted : (ctx.nesting + 1) % 2 ^ 32 = active.length + 1 := by
    rw [nesting]
    apply Nat.mod_eq_of_lt
    have small : maxNesting < 2 ^ 31 := by decide
    omega
  apply Watches.ite
  · intro behind
    rw [counted] at behind
    have reached : maxNesting ≤ active.length := Nat.le_of_lt_succ behind
    obtain ⟨notName, notLength, outside⟩ := met reached
    exact Watches.exit ⟨rfl, rfl, notName, notLength, outside, reached⟩
  · intro within
    rw [counted] at within
    exact Watches.pure ⟨rfl, counted, Nat.lt_of_succ_le (not_lt.mp within)⟩

theorem decreased {nesting length : Nat} (counted : nesting = length + 1)
    (within : length < maxNesting) : (nesting + (2 ^ 32 - 1)) % 2 ^ 32 = length := by
  have small : maxNesting < 2 ^ 31 := by decide
  omega

def Restores (lookup : Lookup) (parser : ParserName) (action : Parser α) : Prop :=
  ∀ (active : List ParserName) (ctx : Context), ctx.nesting = active.length + 1 →
    active.length < maxNesting →
    Watches (nestingMonitor lookup) action
      (fun _ view final => view = ⟨parser :: active, false⟩ ∧ final.nesting = active.length)
      (Fails (parser :: active)) ⟨parser :: active, false⟩ ctx

theorem restores_decrease {parser : ParserName} (value : α) :
    Restores lookup parser (do contextDecreaseNesting; pure value) := by
  intro active ctx nesting within
  exact Watches.modify_bind (Watches.pure ⟨rfl, decreased nesting within⟩)

theorem Restores.bind {parser : ParserName} {next : α → Parser β}
    (head : Steady lookup action) (rest : ∀ value, Restores lookup parser (next value)) :
    Restores lookup parser (action >>= next) := by
  intro active ctx nesting within
  apply (head (parser :: active) ctx nesting).bind
  rintro value _ final ⟨rfl, nesting⟩
  exact rest value active final nesting within

theorem Restores.steady {parser : ParserName} {next : Parser α}
    (restores : Restores lookup parser next)
    (leaf : parser = .nameString ∨ parser = .pkgLength) :
    Steady lookup
      (leaving (fun _ => .success) do contextHasWork; contextIncreaseNesting parser; next) := by
  intro active ctx nesting
  have inside : Watches (nestingMonitor lookup)
      (do contextHasWork; contextIncreaseNesting parser; next)
      (fun _ view final => view = ⟨parser :: active, false⟩ ∧ final.nesting = active.length)
      (Fails (parser :: active)) ⟨active, false⟩ ctx := by
    apply contextHasWork_watched.bind
    rintro _ _ _ ⟨rfl, rfl⟩
    have limit : parser = .nameString ∨ parser = .pkgLength ∨ active.length ≤ maxNesting := by
      rcases leaf with isName | isLength
      · exact Or.inl isName
      · exact Or.inr (Or.inl isLength)
    apply Watches.bind
    · apply (contextIncreaseNesting_watched nesting limit).mono
      · exact fun _ _ _ reached => reached
      · intro leave view final refused
        rcases leaf with isName | isLength
        · exact absurd isName refused.notName
        · exact absurd isLength refused.notLength
    · rintro _ _ final ⟨rfl, nesting, within⟩
      exact restores active final nesting within
  apply inside.ending
  · rintro value _ final ⟨rfl, nesting⟩
    refine ⟨⟨⟨nofun, nofun⟩, trivial⟩, left_next _ _ _ _, nesting⟩
  · intro leave view final fails
    cases leave with
    | returned status =>
      obtain ⟨rfl, rfl⟩ := fails
      exact ⟨⟨⟨nofun, nofun⟩, trivial⟩, rfl, left_next _ _ _ _⟩
    | exhausted => exact ⟨trivial, fails⟩

theorem steady_parseNameString : Steady lookup (parseNameString lookup) := by
  apply Restores.steady _ (Or.inl rfl)
  apply Restores.bind (steady_skipNamePrefix _ _)
  intro isRootPath
  apply Restores.bind (steady_parseNameSegments _)
  intro name
  exact restores_decrease name

theorem steady_parsePkgLength : Steady lookup (parsePkgLength lookup) := by
  apply Restores.steady _ (Or.inr rfl)
  apply Restores.bind steady_currentByte
  intro leadByte
  apply Restores.bind (steady_contextConsumeBytes _)
  intro _
  apply Restores.bind (steady_parsePkgLengthBytes _)
  intro length
  exact restores_decrease length

theorem Steady.orDeviceError (steady : Steady lookup action) :
    Steady lookup (orDeviceError action) := by
  intro active ctx nesting
  apply (steady active ctx nesting).recover
  intro leave view final fails
  cases leave with
  | returned status => exact ⟨rfl, fails.2⟩
  | exhausted => exact fails

theorem steady_name : Steady lookup (orDeviceError (parseNameString lookup)) :=
  steady_parseNameString.orDeviceError

theorem steady_length : Steady lookup (orDeviceError (parsePkgLength lookup)) :=
  steady_parsePkgLength.orDeviceError

end Names

section Calls

variable {active : List ParserName} {ctx : Context} {view : View} {next : Parser Status}
  {status : Status} {leave : Exit}

/-- How a called parser stands when it decides its status: the counter is back
where it was before the call if the search goes on. -/
def Decided (parser : ParserName) (active : List ParserName) (status : Status) (view : View)
    (ctx : Context) : Prop :=
  match status with
  | .success | .deviceError => view = ⟨parser :: active, false⟩
  | .notFound => view = ⟨parser :: active, false⟩ ∧ ctx.nesting = active.length
  | .outOfResources =>
    view.active = parser :: active ∧ .ifElse ∉ active ∧
      (view.aborted = true ∨ maxNesting ≤ active.length)
  | .loadError | .invalidParameter => False

def Leaves (parser : ParserName) (active : List ParserName) (leave : Exit) (view : View)
    (ctx : Context) : Prop :=
  match leave with
  | .returned status => Decided parser active status view ctx
  | .exhausted => view.aborted = false

def Answered (active : List ParserName) (status : Status) (view : View) (ctx : Context) :
    Prop :=
  match status with
  | .success | .deviceError => view = ⟨active, false⟩
  | .notFound => view = ⟨active, false⟩ ∧ ctx.nesting = active.length
  | .outOfResources => view = ⟨active, true⟩ ∧ .ifElse ∉ active
  | .loadError | .invalidParameter => False

def Stopped (leave : Exit) (view : View) (_ : Context) : Prop :=
  leave = .exhausted ∧ view.aborted = false

def Concludes (lookup : Lookup) (parser : ParserName) (action : Parser Status) : Prop :=
  ∀ (active : List ParserName) (ctx : Context), ctx.nesting = active.length + 1 →
    active.length < maxNesting →
    Watches (nestingMonitor lookup) action (Decided parser active) (Leaves parser active)
      ⟨parser :: active, false⟩ ctx

def Answers (lookup : Lookup) (action : Parser Status) : Prop :=
  ∀ (active : List ParserName) (ctx : Context), ctx.nesting = active.length →
    active.length ≤ maxNesting →
    Watches (nestingMonitor lookup) action (Answered active) Stopped ⟨active, false⟩ ctx

variable {parser : ParserName}

theorem leaves_of_fails (fails : Fails (parser :: active) leave view ctx) :
    Leaves parser active leave view ctx := by
  cases leave with
  | returned status =>
    obtain ⟨rfl, rfl⟩ := fails
    rfl
  | exhausted => exact fails

theorem Concludes.bind {action : Parser α} {next : α → Parser Status}
    (head : Steady lookup action) (rest : ∀ value, Concludes lookup parser (next value)) :
    Concludes lookup parser (action >>= next) := by
  intro active ctx nesting within
  apply Watches.bind
  · apply (head (parser :: active) ctx nesting).mono
    · exact fun _ _ _ reached => reached
    · exact fun _ _ _ fails => leaves_of_fails fails
  · rintro value _ final ⟨rfl, nesting⟩
    exact rest value active final nesting within

theorem Concludes.seq {action : Parser α} {next : Parser Status} (head : Steady lookup action)
    (rest : Concludes lookup parser next) : Concludes lookup parser (action >>= fun _ => next) :=
  .bind head fun _ => rest

theorem concludes_get {next : Context → Parser Status}
    (rest : ∀ ctx, Concludes lookup parser (next ctx)) :
    Concludes lookup parser (Action.get >>= next) := by
  intro active ctx nesting within
  exact Watches.get_bind (rest ctx active ctx nesting within)

theorem concludes_ite {condition : Prop} [Decidable condition] {left right : Parser Status}
    (whenTrue : Concludes lookup parser left) (whenFalse : Concludes lookup parser right) :
    Concludes lookup parser (if condition then left else right) := by
  split
  · exact whenTrue
  · exact whenFalse

theorem concludes_notFound : Concludes lookup parser (do contextDecreaseNesting; pure .notFound) := by
  intro active ctx nesting within
  exact Watches.modify_bind (Watches.pure ⟨rfl, decreased nesting within⟩)

theorem concludes_foundAt (start : Nat) : Concludes lookup parser (foundAt start) := by
  intro active ctx nesting within
  exact Watches.modify_bind (Watches.pure rfl)

theorem keeps_left (decided : Decided parser active status view ctx) :
    View.Keeps view (.left status) := by
  cases status with
  | outOfResources =>
    obtain ⟨reached, -, aborted | behind⟩ := decided
    · exact ⟨fun _ => Or.inl aborted, fun _ => rfl⟩
    · refine ⟨fun _ => Or.inr ?_, fun _ => rfl⟩
      rw [reached]
      exact Nat.lt_succ_of_le behind
  | success =>
    obtain rfl := decided
    exact ⟨nofun, nofun⟩
  | deviceError =>
    obtain rfl := decided
    exact ⟨nofun, nofun⟩
  | notFound =>
    obtain ⟨rfl, -⟩ := decided
    exact ⟨nofun, nofun⟩
  | loadError => exact decided.elim
  | invalidParameter => exact decided.elim

theorem answered_of_decided (decided : Decided parser active status view ctx) :
    Answered active status (view.next (.left status)) ctx := by
  cases status with
  | outOfResources =>
    obtain ⟨reached, outside, -⟩ := decided
    refine ⟨?_, outside⟩
    simp [View.next, activeStep, reached]
  | success =>
    obtain rfl := decided
    exact left_next _ _ _ _
  | deviceError =>
    obtain rfl := decided
    exact left_next _ _ _ _
  | notFound =>
    obtain ⟨rfl, nesting⟩ := decided
    exact ⟨left_next _ _ _ _, nesting⟩
  | loadError => exact decided.elim
  | invalidParameter => exact decided.elim

theorem function_watched {body : Parser Status}
    (run : Watches (nestingMonitor lookup) body (Decided parser active) (Leaves parser active)
      ⟨active, false⟩ ctx) :
    Watches (nestingMonitor lookup) (function body) (Answered active) Stopped ⟨active, false⟩
      ctx := by
  have left : Watches (nestingMonitor lookup) (leaving id body) (Answered active)
      (fun leave view final => match leave with
        | .returned status => Answered active status view final
        | .exhausted => view.aborted = false)
      ⟨active, false⟩ ctx := by
    apply run.ending
    · intro status view final decided
      exact ⟨⟨keeps_left decided, trivial⟩, answered_of_decided decided⟩
    · intro leave view final leaves
      cases leave with
      | returned status => exact ⟨⟨keeps_left leaves, trivial⟩, answered_of_decided leaves⟩
      | exhausted => exact ⟨trivial, leaves⟩
  apply left.recover
  intro leave view final reached
  cases leave with
  | returned status => exact reached
  | exhausted => exact ⟨rfl, reached⟩

theorem leaves_of_refused (refused : Refused parser active leave view ctx) :
    Leaves parser active leave view ctx := by
  obtain ⟨rfl, rfl, -, -, outside, limit⟩ := refused
  exact ⟨rfl, outside, Or.inr limit⟩

theorem call_watched (nesting : ctx.nesting = active.length) (limit : active.length ≤ maxNesting)
    (rest : ∀ final, final.nesting = active.length + 1 → active.length < maxNesting →
      Watches (nestingMonitor lookup) next (Decided parser active) (Leaves parser active)
        ⟨parser :: active, false⟩ final) :
    Watches (nestingMonitor lookup) (do contextIncreaseNesting parser; next)
      (Decided parser active) (Leaves parser active) ⟨active, false⟩ ctx := by
  apply Watches.bind
  · apply (contextIncreaseNesting_watched nesting (Or.inr (Or.inr limit))).mono
    · exact fun _ _ _ reached => reached
    · exact fun _ _ _ refused => leaves_of_refused refused
  · rintro _ _ final ⟨rfl, nesting, within⟩
    exact rest final nesting within

theorem Concludes.answers (concludes : Concludes lookup parser next) :
    Answers lookup (function do contextHasWork; contextIncreaseNesting parser; next) := by
  intro active ctx nesting limit
  apply function_watched
  apply contextHasWork_watched.bind
  rintro _ _ _ ⟨rfl, rfl⟩
  exact call_watched nesting limit (concludes active)

end Calls

end OpenCore.AcpiNesting
