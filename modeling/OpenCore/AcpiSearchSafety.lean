import OpenCore.AcpiParserSafety

/-!
The terms that contain terms, and the search as a whole. The bodies of If and Else
carry from term to term only what the last status promises, which after a failure
is the cursor alone; the entry check of the next term is then exactly what the
mark of the resumed body assumes.
-/

namespace OpenCore.AcpiSearchSafety

open TracedAction AcpiContext AcpiParser AcpiParserSafety List

variable {lookup : Lookup} {opcode identifier entriesFound : Nat} {ctx : Context}

section Terms

variable {body : Parser Status} {status : Status} {fuel : Nat}

def BodySpec (lookup : Lookup) (body : Parser Status) : Prop :=
  ∀ {opcode identifier entriesFound : Nat} {ctx : Context},
    At opcode identifier entriesFound ctx →
    Ready lookup opcode identifier entriesFound → opcode < lookup.tableEnd →
    Parses lookup body ctx

theorem scopeTerms_spec {scopeEnd fuel : Nat} (terms : BodySpec lookup body)
    (ends : scopeEnd ≤ lookup.tableEnd) (here : At opcode identifier entriesFound ctx)
    (ready : Ready lookup opcode identifier entriesFound) :
    Runs lookup (scopeTerms body scopeEnd fuel)
      (fun _ final =>
        Ready lookup final.currentOpcode final.currentIdentifier final.entriesFound)
      ctx := by
  induction fuel generalizing opcode identifier entriesFound ctx with
  | zero => exact Ensures.exit trivial
  | succ fuel ih =>
    apply Ensures.get_bind
    rw [here.opcode]
    apply Ensures.ite
    · intro before
      have work : opcode < lookup.tableEnd := by omega
      apply (contextHasWork_spec here ready work).bind
      intro _ _ here
      apply (terms here ready work).bind
      intro status final left
      apply Ensures.ite
      · rintro rfl
        exact ih (at_self final) (ready_of_left left (by decide) (by decide))
      · intro _
        exact Ensures.exit left
    · intro _
      obtain ⟨rfl, rfl, rfl⟩ := here
      exact Ensures.pure ready

theorem startOverIf_spec {isRootPath : Bool} (here : At opcode identifier entriesFound ctx)
    (within : identifier ≤ lookup.pathEnd) :
    Runs lookup (startOverIf isRootPath)
      (fun _ final => ∃ first, first ≤ lookup.pathEnd ∧ At opcode first entriesFound final)
      ctx := by
  apply Ensures.ite
  · intro _
    apply (setIdentifier_spec here).imp
    exact fun _ _ here => ⟨0, Nat.zero_le _, here⟩
  · intro _
    exact Ensures.pure ⟨identifier, within, here⟩

theorem enterTerm_spec (left : Left lookup (.returned status) ctx)
    (notFound : status ≠ .success) (entries : 0 < lookup.requiredEntry)
    (work : ctx.currentOpcode < lookup.tableEnd) :
    Runs lookup (enterTerm status)
      (fun _ final => final = ctx ∧
        Ready lookup ctx.currentOpcode ctx.currentIdentifier ctx.entriesFound)
      ctx := by
  by_cases failed : status = .deviceError
  · have marks : enterTerm status ctx = ((.ok (), ctx),
        [.resume ctx.currentIdentifier ctx.entriesFound,
          .entered ctx.currentOpcode ctx.currentIdentifier ctx.entriesFound]) := by
      rw [failed]
      rfl
    rw [Runs, Ensures, marks]
    simp only [All, forall_mem_cons, Mark.Meets, Mark.Allowed]
    constructor
    · constructor
      · rintro ⟨⟨identifier, found⟩, -⟩
        exact ⟨trivial, ⟨work, identifier, entries, found⟩, forall_mem_nil _⟩
      · rintro ⟨-, ⟨-, identifier, -, found⟩, -⟩
        exact ⟨⟨identifier, found⟩, trivial, forall_mem_nil _⟩
    · rintro ⟨⟨identifier, found⟩, -⟩
      exact ⟨rfl, Nat.le_of_lt work, identifier, found⟩
  · have ready := ready_of_left left notFound failed
    have marks : enterTerm status ctx = ((.ok (), ctx),
        [.entered ctx.currentOpcode ctx.currentIdentifier ctx.entriesFound]) := by
      simp [enterTerm, contextHasWork, failed, Action.get, Action.emit, bind, Action.bind]
    rw [Runs, Ensures, marks, all_singleton, all_singleton]
    exact ⟨iff_of_true trivial ⟨work, ready.identifier, entries, ready.entriesFound⟩,
      fun _ => ⟨rfl, ready⟩⟩

theorem skipByte_spec :
    Runs lookup skipByte (fun _ final => final.currentOpcode ≤ lookup.tableEnd) ctx := by
  have marks : skipByte ctx = ((.ok (), { ctx with currentOpcode := ctx.currentOpcode + 1 }),
        [.skip ctx.currentOpcode, .moved (ctx.currentOpcode + 1)]) := rfl
  rw [Runs, Ensures, marks]
  simp only [All, forall_mem_cons, Mark.Meets, Mark.Allowed]
  constructor
  · constructor
    · rintro ⟨before, -⟩
      exact ⟨trivial, before, forall_mem_nil _⟩
    · rintro ⟨-, before, -⟩
      exact ⟨before, trivial, forall_mem_nil _⟩
  · rintro ⟨before, -⟩
    exact before

theorem skipFailed_spec (left : Left lookup (.returned status) ctx) :
    Runs lookup (skipFailed status) (fun _ final => Left lookup (.returned status) final)
      ctx := by
  apply Ensures.ite
  · rintro rfl
    exact skipByte_spec
  · intro _
    exact Ensures.pure left

theorem noteGoesOn_spec {term bodyEnd : Nat} :
    Runs lookup (noteGoesOn term bodyEnd status) (fun _ final => final = ctx) ctx := by
  apply Ensures.get_bind
  split
  · exact emit_spec trivial trivial
  · exact Ensures.emit all_nil_agree fun _ => rfl

theorem bodyTerms_spec {bodyEnd fuel : Nat}
    (terms : BodySpec lookup body) (ends : bodyEnd ≤ lookup.tableEnd)
    (entries : 0 < lookup.requiredEntry) (left : Left lookup (.returned status) ctx) :
    Parses lookup (bodyTerms body bodyEnd fuel status) ctx := by
  induction fuel generalizing status ctx with
  | zero => exact Ensures.exit trivial
  | succ fuel ih =>
    apply Ensures.get_bind
    apply Ensures.ite
    · rintro ⟨notFound, before⟩
      have work : ctx.currentOpcode < lookup.tableEnd := by omega
      apply (enterTerm_spec left notFound entries work).bind
      rintro _ _ ⟨rfl, ready⟩
      apply (terms (at_self _) ready work).bind
      intro next _ left
      apply (skipFailed_spec left).bind
      intro _ _ left
      apply noteGoesOn_spec.bind
      rintro _ _ rfl
      exact ih left
    · intro _
      exact Ensures.pure left

theorem clampOpcode_spec {bodyEnd : Nat} (here : At opcode identifier entriesFound ctx)
    (inside : opcode ≤ lookup.tableEnd) :
    Skips lookup (clampOpcode bodyEnd) identifier entriesFound ctx := by
  apply Ensures.get_bind
  rw [here.opcode]
  apply Ensures.ite
  · intro behind
    have ends : bodyEnd ≤ lookup.tableEnd := by omega
    apply (moveOpcode_spec here ends).imp
    exact fun _ _ here => ⟨bodyEnd, ends, here⟩
  · intro _
    exact Ensures.pure ⟨opcode, inside, here⟩

variable (fits : lookup.tableEnd < 2 ^ 32) (entries : lookup.requiredEntry < 2 ^ 32)
include entries

theorem scopeMatched_spec {start reached : Nat}
    (here : At opcode reached entriesFound ctx) (within : reached ≤ lookup.pathEnd)
    (ready : Ready lookup opcode identifier entriesFound) :
    Runs lookup (scopeMatched lookup start)
      (fun _ final => Ready lookup final.currentOpcode final.currentIdentifier final.entriesFound)
      ctx := by
  have path : 0 < lookup.pathEnd := Nat.zero_lt_of_lt ready.identifier
  apply Ensures.get_bind
  rw [here.identifier]
  apply Ensures.ite
  · intro _
    apply (countEntry_spec entries here ready.entriesFound).bind
    rintro found _ ⟨here, more⟩
    apply Ensures.ite
    · intro _
      have inside := ready.opcode
      rw [← here.opcode] at inside
      apply (foundAt_spec inside).bind
      intro status final left
      exact Ensures.exit left
    · intro missing
      apply (setIdentifier_spec here).imp
      rintro _ _ ⟨rfl, identifier, found⟩
      rw [identifier, found]
      exact ⟨ready.opcode, path, more (Bool.eq_false_iff.mpr missing)⟩
  · intro before
    obtain ⟨rfl, rfl, rfl⟩ := here
    exact Ensures.pure ⟨ready.opcode, by omega, ready.entriesFound⟩

include fits

theorem parseScopeOrDevice_spec (terms : BodySpec lookup body)
    (here : At opcode identifier entriesFound ctx)
    (ready : Ready lookup opcode identifier entriesFound) (work : opcode < lookup.tableEnd) :
    Parses lookup (parseScopeOrDevice lookup body fuel) ctx := by
  apply enter_spec here ready work
  intro _ here
  apply Ensures.get_bind
  rw [here.opcode, here.identifier]
  apply (parseBlockEnd_spec fits here ready work).bind
  rintro scopeEnd _ ⟨ends, target, further, inside, here⟩
  apply (contextPeekBytes_spec fits here inside).bind
  rintro _ _ ⟨here, more⟩
  apply (skippedName_spec fits here (ready.move inside) more).bind
  rintro name _ ⟨⟨behind, _, insideName, here⟩, named⟩
  apply (deviceErrorIfBehind_spec here insideName).bind
  intro _ _ here
  apply (startOverIf_spec here (Nat.le_of_lt ready.identifier)).bind
  rintro _ _ ⟨first, within, here⟩
  apply (matchScopeName_spec here within named).bind
  rintro _ _ ⟨reached, within, here⟩
  apply (scopeMatched_spec entries here within (ready.move insideName)).bind
  intro _ _ readyInside
  apply (scopeTerms_spec terms ends (at_self _) readyInside).bind
  intro _ _ readyBehind
  apply (setIdentifier_spec (at_self _)).bind
  intro _ _ here
  exact notFound_spec here (readyBehind.rename ready.identifier)

omit entries in
theorem parseElse_spec {fuel first : Nat} (terms : BodySpec lookup body)
    (here : At opcode identifier entriesFound ctx)
    (ready : Ready lookup opcode identifier entriesFound) (named : first < lookup.pathEnd) :
    Parses lookup (parseElse lookup body fuel first) ctx := by
  have positive : 0 < lookup.requiredEntry := Nat.zero_lt_of_lt ready.entriesFound
  apply (contextAdvanceOpcode_spec fits here ready.opcode).bind
  rintro _ _ ⟨here, work⟩
  apply (parseBlockEnd_spec fits here (ready.move (Nat.le_of_lt work)) work).bind
  rintro elseEnd _ ⟨ends, target, further, inside, here⟩
  apply (bodyTerms_spec terms ends positive
    (left_of_ready here (ready.move inside) .notFound)).bind
  intro status final left
  apply Ensures.get_bind
  apply Ensures.ite
  · intro _
    exact Ensures.pure (opcode_le_of_left left)
  intro passed
  apply Ensures.ite
  · intro _
    apply (contextDecreaseNesting_spec (at_self final)).bind
    intro _ _ here
    have bound := opcode_le_of_left left
    rw [← here.opcode] at bound
    exact Ensures.pure bound
  · intro missing
    have readyBehind := ready_of_left left missing fun failed => passed (Or.inr failed)
    apply (setIdentifier_spec (at_self final)).bind
    intro _ _ here
    exact notFound_spec here (readyBehind.rename named)

omit entries in
theorem parseIfElse_spec (terms : BodySpec lookup body)
    (here : At opcode identifier entriesFound ctx)
    (ready : Ready lookup opcode identifier entriesFound) (work : opcode < lookup.tableEnd) :
    Parses lookup (parseIfElse lookup body fuel) ctx := by
  have positive : 0 < lookup.requiredEntry := Nat.zero_lt_of_lt ready.entriesFound
  apply enter_spec here ready work
  intro _ here
  apply Ensures.get_bind
  rw [here.identifier]
  apply (parseBlockEnd_spec fits here ready work).bind
  rintro ifEnd _ ⟨ends, target, further, inside, here⟩
  apply (bodyTerms_spec terms ends positive
    (left_of_ready here (ready.move inside) .notFound)).bind
  intro status final left
  apply Ensures.ite
  · intro _
    exact Ensures.pure (opcode_le_of_left left)
  intro passed
  apply Ensures.ite
  · intro _
    apply (contextDecreaseNesting_spec (at_self final)).bind
    intro _ _ here
    have bound := opcode_le_of_left left
    rw [← here.opcode] at bound
    exact Ensures.pure bound
  · intro missing
    have readyBehind := ready_of_left left missing passed
    apply (clampOpcode_spec (at_self final) readyBehind.opcode).bind
    rintro _ _ ⟨clamped, insideClamped, here⟩
    apply (setIdentifier_spec here).bind
    intro _ _ here
    have readyAgain := (readyBehind.move insideClamped).rename ready.identifier
    apply (contextPeekBytes_spec fits here insideClamped).bind
    rintro _ _ ⟨here, more⟩
    apply (currentByte_spec (by rw [here.opcode]; exact more)).bind
    rintro byte _ rfl
    apply Ensures.ite
    · intro _
      exact parseElse_spec fits terms here readyAgain ready.identifier
    · intro _
      exact notFound_spec here readyAgain

theorem parseTermOf_spec (terms : BodySpec lookup body)
    (term : Term) (here : At opcode identifier entriesFound ctx)
    (ready : Ready lookup opcode identifier entriesFound) (work : opcode < lookup.tableEnd) :
    Parses lookup (parseTermOf lookup body fuel term) ctx := by
  cases term with
  | aliasName => exact parseAlias_spec fits here ready work
  | scopeOrDevice => exact parseScopeOrDevice_spec fits entries terms here ready work
  | name => exact parseName_spec fits here ready work
  | ignored => exact Ensures.pure (left_of_ready here ready _)
  | bankField => exact parseBankField_spec fits entries here ready work
  | createField => exact parseCreateField_spec fits entries here ready work
  | external => exact parseNameAndBytes_spec fits here ready work
  | opRegion => exact parseOpRegion_spec fits here ready work
  | powerRes => exact parseSkippedPackage_spec fits here ready work
  | processor => exact parseSkippedPackage_spec fits here ready work
  | thermalZone => exact parseSkippedPackage_spec fits here ready work
  | method => exact parseNamedBlock_spec fits entries here ready work
  | ifElse => exact parseIfElse_spec fits terms here ready work
  | event => exact parseEvent_spec fits here ready work
  | field => exact parseNamedBlock_spec fits entries here ready work
  | indexField => exact parseIndexField_spec fits entries here ready work
  | mutex => exact parseNameAndBytes_spec fits here ready work

theorem dispatchTerm_spec {byte : UInt8}
    (terms : BodySpec lookup body) (here : At opcode identifier entriesFound ctx)
    (ready : Ready lookup opcode identifier entriesFound) :
    Parses lookup (dispatchTerm lookup body fuel byte) ctx := by
  rw [dispatchTerm]
  cases termOf byte with
  | some term =>
    apply (contextAdvanceOpcode_spec fits here ready.opcode).bind
    rintro _ _ ⟨here, work⟩
    exact parseTermOf_spec fits entries terms term here (ready.move (Nat.le_of_lt work)) work
  | none => exact Ensures.pure (left_of_ready here ready _)

theorem parseTermBody_spec (fuel : Nat) : BodySpec lookup (parseTermBody lookup fuel) := by
  induction fuel with
  | zero =>
    intro _ _ _ _ _ _ _
    exact Ensures.exit trivial
  | succ fuel ih =>
    intro opcode identifier entriesFound ctx here ready work
    apply function_spec
    apply (contextIncreaseNesting_spec here ready).bind
    intro _ _ here
    apply (currentByte_spec (by rw [here.opcode]; exact work)).bind
    rintro byte _ rfl
    apply (dispatchTerm_spec fits entries ih here ready).bind
    intro status final left
    apply (contextDecreaseNesting_spec (at_self final)).bind
    intro _ _ here
    exact Ensures.pure (left_congr left here)

end Terms

section Search

variable (fits : lookup.tableEnd < 2 ^ 32) (entries : lookup.requiredEntry < 2 ^ 32)
include fits entries

theorem findTerms_spec {termFuel fuel : Nat} (here : At opcode identifier entriesFound ctx)
    (inside : opcode ≤ lookup.tableEnd) (named : identifier < lookup.pathEnd)
    (missing : 0 < lookup.requiredEntry → entriesFound < lookup.requiredEntry) :
    Runs lookup (findTerms lookup termFuel fuel) (fun _ _ => True) ctx := by
  induction fuel generalizing opcode identifier entriesFound ctx with
  | zero => exact Ensures.exit trivial
  | succ fuel ih =>
    apply Ensures.get_bind
    apply Ensures.ite
    · intro work
      rw [here.opcode] at work
      by_cases positive : 0 < lookup.requiredEntry
      · have ready : Ready lookup opcode identifier entriesFound :=
          ⟨inside, named, missing positive⟩
        have searched : Runs lookup (Action.emit [.search]) (fun _ final => final = ctx)
            ctx := emit_spec positive trivial
        apply searched.bind
        rintro _ _ rfl
        apply Ensures.bind
          ((contextHasWork_spec here ready work).bind fun _ _ here =>
            parseTermBody_spec fits entries termFuel here ready work)
        intro status final left
        apply Ensures.ite
        · rintro rfl
          have readyBehind := ready_of_left left (by decide) (by decide)
          exact ih (at_self final) readyBehind.opcode readyBehind.identifier
            fun _ => readyBehind.entriesFound
        · intro _
          exact Ensures.pure trivial
      · -- the search is marked and its first term entered
        have notMet : ∀ marks, ¬ All (Mark.Meets lookup) (.search :: marks) :=
          fun _ all => positive (all _ mem_cons_self)
        have notAllowed : ∀ marks,
            .entered ctx.currentOpcode ctx.currentIdentifier ctx.entriesFound ∈ marks →
            ¬ All (Mark.Allowed lookup) (.search :: marks) :=
          fun _ member all => positive (all _ (mem_cons_of_mem _ member)).2.2.1
        constructor
        · refine iff_of_false (notMet _) (notAllowed _ ?_)
          apply mem_bind
          apply mem_bind
          exact mem_cons_self
        · exact fun all => absurd all (notMet _)
    · intro _
      exact Ensures.pure trivial

end Search

section FindEntry

theorem mapM_ne_nil {α β : Type} {f : α → Option β} {values : List α} {results : List β}
    (mapped : values.mapM f = some results) (some : values ≠ []) : results ≠ [] := by
  cases values with
  | nil => exact absurd rfl some
  | cons value rest =>
    rw [mapM_cons] at mapped
    cases first : f value with
    | none =>
      rw [first] at mapped
      exact absurd mapped (by simp)
    | some result =>
      rw [first] at mapped
      cases others : rest.mapM f with
      | none =>
        rw [others] at mapped
        exact absurd mapped (by simp)
      | some further =>
        rw [others] at mapped
        intro empty
        rw [empty] at mapped
        exact absurd mapped (by simp)

theorem getOpcodeArray_ne_nil {pathString : List UInt8} {identifiers : List UInt32}
    (translated : getOpcodeArray pathString = some identifiers) : identifiers ≠ [] := by
  rw [getOpcodeArray] at translated
  generalize (if pathString.head? = some 0x5C then pathString.tail else pathString) = path
    at translated
  by_cases empty : path = []
  · rw [if_pos empty] at translated
    exact nomatch translated
  · rw [if_neg empty] at translated
    exact mapM_ne_nil translated (splitOn_ne_nil _ _)

namespace Search

variable (search : Search)

theorem length_lt : search.length < 2 ^ 32 := by
  rw [AcpiParser.Search.length]
  split
  · exact search.tableLength.toNat_lt
  · exact AddressSpace.load_lt search.memory 4 4

end Search

theorem readLength_spec (search : Search) :
    Runs search.lookup search.readLength (fun _ final => final = ctx) ctx := by
  apply Ensures.ite
  · intro _
    exact Ensures.pure rfl
  · intro _
    apply Ensures.emit
    · simp only [All, forall_mem_cons, Mark.Meets, Mark.Allowed]
      constructor
      · rintro ⟨header, -⟩
        exact ⟨trivial, by omega, by omega, by omega, header, forall_mem_nil _⟩
      · rintro ⟨-, -, -, -, last, -⟩
        exact ⟨last, trivial, trivial, trivial, trivial, forall_mem_nil _⟩
    · intro _
      rfl

theorem acpiFindEntryInMemory_spec (search : Search) (fuel : Nat) :
    Runs search.lookup (search.acpiFindEntryInMemory fuel) (fun _ _ => True) Search.start := by
  apply Ensures.ite
  · intro _
    exact Ensures.pure trivial
  intro _
  apply (readLength_spec search).bind
  rintro _ _ rfl
  apply Ensures.ite
  · intro _
    exact Ensures.pure trivial
  intro long
  apply Ensures.ite
  · intro _
    exact Ensures.pure trivial
  · intro valid
    have named : 0 < search.lookup.pathEnd := by
      have translates : getOpcodeArray search.pathString ≠ none := by
        simpa using valid
      obtain ⟨identifiers, translated⟩ := Option.ne_none_iff_exists'.mp translates
      have length : search.lookup.pathEnd = identifiers.length := by
        rw [AcpiParser.Search.lookup, AcpiParser.Search.identifiers, translated]
        rfl
      rw [length]
      exact length_pos_of_ne_nil (getOpcodeArray_ne_nil translated)
    have entries : search.lookup.requiredEntry < 2 ^ 32 :=
      Nat.lt_trans search.entry.toNat_lt (by decide)
    have inside : AcpiParser.Search.descriptionHeaderSize ≤ search.lookup.tableEnd := by
      have equal : search.lookup.tableEnd = search.length := rfl
      omega
    exact findTerms_spec (Search.length_lt search) entries ⟨rfl, rfl, rfl⟩ inside named
      fun positive => positive

/-- A search reads only table and path, keeps its cursor in the table and passes
every entry check, exactly when no step of it goes wrong: the header of a table
without a given length is whole, the entry is not 0, a created field is compared
with an identifier of the path, a failed term is skipped inside the table, and a
body that goes on behind it has an identifier and an entry to look for. -/
theorem acpiFindEntryInMemory_safe_iff (search : Search) (fuel : Nat) :
    (∀ mark ∈ search.trace fuel, mark.Allowed search.lookup) ↔
      ∀ mark ∈ search.trace fuel, mark.Meets search.lookup :=
  (acpiFindEntryInMemory_spec search fuel).1.symm

def tableOf (terms : List UInt8) : AddressSpace.Memory := fun offset =>
  (replicate Search.descriptionHeaderSize 0 ++ terms).getD offset 0

def searchIn (terms : List UInt8) : Search where
  memory := tableOf terms
  pathString := [0x41]
  behindPath := fun _ => 0
  entry := 1
  tableLength := UInt32.ofNat (Search.descriptionHeaderSize + terms.length)

/-- `CreateDWordField (A, 0, B)`: its second name is compared with an identifier
behind the path. -/
def createFieldTerms : List UInt8 :=
  [0x8A, 0x41, 0x5F, 0x5F, 0x5F, 0x00, 0x42, 0x5F, 0x5F, 0x5F]

/-- An If body with `IndexField (A, B)` and an empty rest: the failed field leaves
the search at the end of the path, and the next term is entered there. -/
def indexFieldTerms : List UInt8 :=
  [0xA0, 0x11, 0x86, 0x0E, 0x41, 0x5F, 0x5F, 0x5F, 0x42, 0x5F, 0x5F, 0x5F, 0, 0, 0, 0, 0, 0]

/-- An If body with a Mutex cut off behind its name: the skipped byte is the one
behind the table. -/
def cutMutexTerms : List UInt8 := [0xA0, 0x06, 0x01, 0x41, 0x5F, 0x5F, 0x5F]

theorem searches_leave_table_and_path :
    (.pathRead 1 ∈ (searchIn createFieldTerms).trace 10 ∧
        ¬ (Mark.pathRead 1).Allowed (searchIn createFieldTerms).lookup) ∧
      (.entered 45 1 0 ∈ (searchIn indexFieldTerms).trace 20 ∧
        ¬ (Mark.entered 45 1 0).Allowed (searchIn indexFieldTerms).lookup) ∧
      (.moved 44 ∈ (searchIn cutMutexTerms).trace 10 ∧
        ¬ (Mark.moved 44).Allowed (searchIn cutMutexTerms).lookup) := by
  decide +kernel

end FindEntry

end OpenCore.AcpiSearchSafety
