import OpenCore.AcpiParser

/-!
One spec for every parser: started inside the table, with an identifier to match
and an entry to find, it reads only the table and the path and leaves the cursor
inside the table. What a status promises of the context it leaves behind is
`Left`: a term that was not found, or not entered for its nesting, leaves the
search as ready as it was, any other status only the cursor in place. The If and
Else bodies, which go on behind any failure, are where the marks of the skipped
checks enter.
-/

namespace OpenCore.AcpiParserSafety

open TracedAction AcpiContext AcpiParser List

structure At (opcode identifier entriesFound : Nat) (ctx : Context) : Prop where
  opcode : ctx.currentOpcode = opcode
  identifier : ctx.currentIdentifier = identifier
  entriesFound : ctx.entriesFound = entriesFound

theorem at_self (ctx : Context) :
    At ctx.currentOpcode ctx.currentIdentifier ctx.entriesFound ctx :=
  ⟨rfl, rfl, rfl⟩

structure Ready (lookup : Lookup) (opcode identifier entriesFound : Nat) : Prop where
  opcode : opcode ≤ lookup.tableEnd
  identifier : identifier < lookup.pathEnd
  entriesFound : entriesFound < lookup.requiredEntry

section

variable {lookup : Lookup} {opcode identifier entriesFound : Nat} {target : Nat}
  (ready : Ready lookup opcode identifier entriesFound)
include ready

theorem Ready.move
    (inside : target ≤ lookup.tableEnd) : Ready lookup target identifier entriesFound :=
  ⟨inside, ready.identifier, ready.entriesFound⟩

theorem Ready.rename (inside : target < lookup.pathEnd) : Ready lookup opcode target entriesFound :=
  ⟨ready.opcode, inside, ready.entriesFound⟩

end

def Left (lookup : Lookup) : Exit → Context → Prop
  | .returned .success, ctx | .returned .deviceError, ctx =>
    ctx.currentOpcode ≤ lookup.tableEnd
  | .returned _, ctx =>
    Ready lookup ctx.currentOpcode ctx.currentIdentifier ctx.entriesFound
  | .exhausted, _ => True

theorem left_of_ready {lookup : Lookup} {opcode identifier entriesFound : Nat} {ctx : Context}
    (here : At opcode identifier entriesFound ctx)
    (ready : Ready lookup opcode identifier entriesFound) (status : Status) :
    Left lookup (.returned status) ctx := by
  obtain ⟨rfl, rfl, rfl⟩ := here
  cases status with
  | success => exact ready.opcode
  | deviceError => exact ready.opcode
  | notFound => exact ready
  | outOfResources => exact ready
  | loadError => exact ready
  | invalidParameter => exact ready

variable {status : Status}

theorem ready_of_left {lookup : Lookup} {ctx : Context}
    (left : Left lookup (.returned status) ctx) (notFound : status ≠ .success)
    (passed : status ≠ .deviceError) :
    Ready lookup ctx.currentOpcode ctx.currentIdentifier ctx.entriesFound := by
  cases status with
  | success => exact absurd rfl notFound
  | deviceError => exact absurd rfl passed
  | notFound => exact left
  | outOfResources => exact left
  | loadError => exact left
  | invalidParameter => exact left

theorem opcode_le_of_left {lookup : Lookup} {ctx : Context}
    (left : Left lookup (.returned status) ctx) : ctx.currentOpcode ≤ lookup.tableEnd := by
  cases status with
  | success => exact left
  | deviceError => exact left
  | notFound => exact left.opcode
  | outOfResources => exact left.opcode
  | loadError => exact left.opcode
  | invalidParameter => exact left.opcode

theorem left_congr {lookup : Lookup} {ctx final : Context}
    (left : Left lookup (.returned status) ctx)
    (here : At ctx.currentOpcode ctx.currentIdentifier ctx.entriesFound final) :
    Left lookup (.returned status) final := by
  have bound := opcode_le_of_left left
  rw [← here.opcode] at bound
  by_cases found : status = .success
  · rw [found]
    exact bound
  by_cases failed : status = .deviceError
  · rw [failed]
    exact bound
  · exact left_of_ready here (ready_of_left left found failed) status

abbrev Runs (lookup : Lookup) {α : Type} (action : Parser α) (post : α → Context → Prop)
    (ctx : Context) : Prop :=
  Ensures (Mark.Meets lookup) (Mark.Allowed lookup) action post (Left lookup) ctx

/-- A parser of a term. -/
abbrev Parses (lookup : Lookup) (action : Parser Status) (ctx : Context) : Prop :=
  Runs lookup action (fun status final => Left lookup (.returned status) final) ctx

/-- A parser that moves the cursor inside the table and nothing else. -/
abbrev Skips (lookup : Lookup) {α : Type} (action : Parser α) (identifier entriesFound : Nat)
    (ctx : Context) : Prop :=
  Runs lookup action (fun _ final => ∃ target, target ≤ lookup.tableEnd ∧
    At target identifier entriesFound final) ctx

variable {lookup : Lookup} {opcode identifier entriesFound : Nat} {ctx : Context}

section Macros

variable {target : Nat} {mark : Mark}

theorem all_singleton {property : Mark → Prop} :
    All property [mark] ↔ property mark :=
  forall_mem_singleton

theorem emit_spec (meets : mark.Meets lookup) (allowed : mark.Allowed lookup) :
    Runs lookup (Action.emit [mark]) (fun _ final => final = ctx) ctx := by
  apply Ensures.emit
  · rw [all_singleton, all_singleton]
    exact iff_of_true meets allowed
  · intro _
    rfl

theorem readTable_spec {offset : Nat} (inside : offset < lookup.tableEnd) :
    Runs lookup (readTable lookup offset) (fun _ final => final = ctx) ctx := by
  have observed : Runs lookup (Action.emit [.tableRead offset]) (fun _ final => final = ctx)
      ctx := emit_spec trivial inside
  apply observed.bind
  rintro _ _ rfl
  exact Ensures.pure rfl

theorem currentByte_spec (inside : ctx.currentOpcode < lookup.tableEnd) :
    Runs lookup (currentByte lookup) (fun _ final => final = ctx) ctx :=
  Ensures.get_bind (readTable_spec inside)

theorem readPath_spec {index : Nat} (inside : identifier < lookup.pathEnd) :
    Runs lookup (readPath lookup identifier index) (fun _ final => final = ctx) ctx := by
  have observed : Runs lookup (Action.emit [.pathRead identifier]) (fun _ final => final = ctx)
      ctx := emit_spec trivial inside
  apply observed.bind
  rintro _ _ rfl
  exact Ensures.pure rfl

section

variable (here : At opcode identifier entriesFound ctx)
include here

theorem moveOpcode_spec (inside : target ≤ lookup.tableEnd) :
    Runs lookup (moveOpcode target) (fun _ final => At target identifier entriesFound final)
      ctx := by
  apply Ensures.modify_bind
  have observed : Runs lookup (Action.emit [.moved target])
      (fun _ final => final = { ctx with currentOpcode := target })
      { ctx with currentOpcode := target } := emit_spec trivial inside
  apply observed.imp
  rintro _ _ rfl
  exact ⟨rfl, here.identifier, here.entriesFound⟩

theorem setIdentifier_spec :
    Runs lookup (setIdentifier target) (fun _ final => At opcode target entriesFound final)
      ctx :=
  Ensures.modify ⟨here.opcode, rfl, here.entriesFound⟩

theorem contextHasWork_spec
    (ready : Ready lookup opcode identifier entriesFound) (work : opcode < lookup.tableEnd) :
    Runs lookup contextHasWork (fun _ final => At opcode identifier entriesFound final) ctx := by
  obtain ⟨rfl, rfl, rfl⟩ := here
  apply Ensures.get_bind
  have entries : 0 < lookup.requiredEntry := Nat.zero_lt_of_lt ready.entriesFound
  have observed : Runs lookup
      (Action.emit [.entered ctx.currentOpcode ctx.currentIdentifier ctx.entriesFound])
      (fun _ final => final = ctx) ctx :=
    emit_spec trivial ⟨work, ready.identifier, entries, ready.entriesFound⟩
  apply observed.imp
  rintro _ _ rfl
  exact at_self _

theorem contextIncreaseNesting_spec {parser : ParserName}
    (ready : Ready lookup opcode identifier entriesFound) :
    Runs lookup (contextIncreaseNesting parser)
      (fun _ final => At opcode identifier entriesFound final) ctx := by
  apply Ensures.get_bind
  have observed : Runs lookup (Action.emit [.called parser ctx.nesting])
      (fun _ final => final = ctx) ctx := emit_spec trivial trivial
  apply observed.bind
  rintro _ ctx rfl
  apply Ensures.modify_bind
  apply Ensures.get_bind
  have kept : At opcode identifier entriesFound
      { ctx with nesting := (ctx.nesting + 1) % 2 ^ 32 } :=
    ⟨here.opcode, here.identifier, here.entriesFound⟩
  apply Ensures.ite
  · intro _
    exact Ensures.exit (left_of_ready kept ready _)
  · intro _
    exact Ensures.pure kept

theorem contextDecreaseNesting_spec :
    Runs lookup contextDecreaseNesting (fun _ final => At opcode identifier entriesFound final)
      ctx :=
  Ensures.modify ⟨here.opcode, here.identifier, here.entriesFound⟩

theorem notFound_spec (ready : Ready lookup opcode identifier entriesFound) :
    Parses lookup (do contextDecreaseNesting; pure Status.notFound) ctx := by
  apply (contextDecreaseNesting_spec here).bind
  intro _ final here
  exact Ensures.pure (left_of_ready here ready _)

end

theorem deviceErrorIf_spec {condition : Bool} (inside : ctx.currentOpcode ≤ lookup.tableEnd) :
    Runs lookup (deviceErrorIf condition) (fun _ final => final = ctx ∧ condition = false)
      ctx := by
  apply Ensures.ite
  · intro _
    exact Ensures.exit inside
  · intro passed
    exact Ensures.pure ⟨rfl, Bool.eq_false_iff.mpr passed⟩

end Macros

section Bounds

variable (fits : lookup.tableEnd < 2 ^ 32)
include fits

section

variable (here : At opcode identifier entriesFound ctx) (inside : opcode ≤ lookup.tableEnd)
include here inside

theorem contextPeekBytes_spec {bytes : Nat} :
    Runs lookup (contextPeekBytes lookup bytes)
      (fun _ final => At opcode identifier entriesFound final ∧ opcode + bytes ≤ lookup.tableEnd)
      ctx := by
  obtain ⟨rfl, rfl, rfl⟩ := here
  apply Ensures.get_bind
  apply (deviceErrorIf_spec inside).imp
  rintro _ _ ⟨rfl, enough⟩
  rw [remaining_eq fits inside, decide_eq_false_iff_not] at enough
  exact ⟨at_self _, by omega⟩

theorem contextConsumeBytes_spec {bytes : Nat} :
    Runs lookup (contextConsumeBytes lookup bytes)
      (fun _ final => At (opcode + bytes) identifier entriesFound final ∧
        opcode + bytes ≤ lookup.tableEnd)
      ctx := by
  apply (contextPeekBytes_spec fits here inside).bind
  rintro _ final ⟨here, within⟩
  apply Ensures.get_bind
  rw [here.opcode]
  apply (moveOpcode_spec here within).imp
  exact fun _ _ moved => ⟨moved, within⟩

theorem contextAdvanceOpcode_spec :
    Runs lookup (contextAdvanceOpcode lookup)
      (fun _ final => At (opcode + 1) identifier entriesFound final ∧ opcode + 1 < lookup.tableEnd)
      ctx := by
  obtain ⟨rfl, rfl, rfl⟩ := here
  apply Ensures.get_bind
  apply (deviceErrorIf_spec inside).bind
  rintro _ _ ⟨rfl, more⟩
  rw [remaining_eq fits inside, decide_eq_false_iff_not] at more
  apply (moveOpcode_spec (at_self _) (by omega)).imp
  exact fun _ _ moved => ⟨moved, by omega⟩

end

end Bounds

section Calls

variable {α : Type} {post : α → Context → Prop}

theorem leaving_spec {statusOf : α → Status} {body : Parser α} (run : Runs lookup body post ctx) :
    Runs lookup (leaving statusOf body) post ctx := by
  apply run.ending
  intro outcome
  rcases outcome with (status | _) | value
  · rw [all_singleton, all_singleton]
    exact Iff.rfl
  · exact all_nil_agree
  · rw [all_singleton, all_singleton]
    exact Iff.rfl

theorem function_spec {body : Parser Status}
    (run : Parses lookup body ctx) :
    Parses lookup (function body) ctx := by
  apply (leaving_spec run).recover
  intro leave final left
  cases leave with
  | returned status => exact left
  | exhausted => trivial

theorem orDeviceError_spec {action : Parser α}
    (run : Runs lookup action post ctx) : Runs lookup (orDeviceError action) post ctx := by
  apply run.recover
  intro leave final left
  cases leave with
  | returned status => exact opcode_le_of_left left
  | exhausted => trivial

theorem enter_spec {parser : ParserName} {next : Parser Status}
    (here : At opcode identifier entriesFound ctx)
    (ready : Ready lookup opcode identifier entriesFound) (work : opcode < lookup.tableEnd)
    (rest : ∀ final, At opcode identifier entriesFound final →
      Runs lookup next (fun status final => Left lookup (.returned status) final) final) :
    Parses lookup (function do contextHasWork; contextIncreaseNesting parser; next) ctx := by
  apply function_spec
  apply (contextHasWork_spec here ready work).bind
  intro _ _ here
  apply (contextIncreaseNesting_spec here ready).bind
  intro _ final here
  exact rest final here

end Calls

section Names

variable {isRootPath : Bool}

def Advanced (lookup : Lookup) (opcode identifier entriesFound : Nat) (final : Context) : Prop :=
  ∃ target, opcode < target ∧ target ≤ lookup.tableEnd ∧ At target identifier entriesFound final

def NameInside (lookup : Lookup) (name : NamePath) : Prop :=
  0 < name.pathLength → name.namePathStart + name.pathLength * identLen ≤ lookup.tableEnd

theorem pkgLengthBytes_spec {base : Nat} {indices : List Nat}
    (inside : ∀ index ∈ indices, base + index < lookup.tableEnd) :
    Runs lookup (pkgLengthBytes lookup base indices) (fun _ final => final = ctx) ctx := by
  induction indices with
  | nil => exact Ensures.pure rfl
  | cons index rest ih =>
    apply (readTable_spec (inside index mem_cons_self)).bind
    rintro byte _ rfl
    apply (ih fun later member => inside later (mem_cons_of_mem _ member)).bind
    rintro total _ rfl
    exact Ensures.pure rfl

variable (fits : lookup.tableEnd < 2 ^ 32)
include fits

section

variable (here : At opcode identifier entriesFound ctx)
include here

theorem skipNamePrefix_spec {fuel : Nat} (work : opcode < lookup.tableEnd) :
    Runs lookup (skipNamePrefix lookup fuel isRootPath)
      (fun _ final => ∃ target, opcode ≤ target ∧ target < lookup.tableEnd ∧
        At target identifier entriesFound final)
      ctx := by
  induction fuel generalizing opcode ctx isRootPath with
  | zero => exact Ensures.exit trivial
  | succ fuel ih =>
    apply (currentByte_spec (by rw [here.opcode]; exact work)).bind
    rintro byte _ rfl
    apply Ensures.ite
    · intro _
      apply (contextAdvanceOpcode_spec fits here (Nat.le_of_lt work)).bind
      rintro _ _ ⟨here, more⟩
      apply (ih here more).imp
      rintro _ _ ⟨target, further, rest⟩
      exact ⟨target, by omega, rest⟩
    · intro _
      exact Ensures.pure ⟨opcode, Nat.le_refl _, work, here⟩

theorem parseNameSegments_spec (work : opcode < lookup.tableEnd) :
    Runs lookup (parseNameSegments lookup isRootPath)
      (fun name final => Advanced lookup opcode identifier entriesFound final ∧
        NameInside lookup name)
      ctx := by
  have inside := Nat.le_of_lt work
  apply (currentByte_spec (by rw [here.opcode]; exact work)).bind
  rintro byte _ rfl
  apply Ensures.ite
  · intro _
    apply Ensures.get_bind
    rw [here.opcode]
    apply (moveOpcode_spec here work).bind
    intro _ _ here
    exact Ensures.pure ⟨⟨_, Nat.lt_succ_self _, work, here⟩, fun some => absurd some (Nat.lt_irrefl 0)⟩
  intro _
  apply Ensures.ite
  · intro _
    apply (contextAdvanceOpcode_spec fits here inside).bind
    rintro _ _ ⟨here, more⟩
    apply (contextPeekBytes_spec fits here (Nat.le_of_lt more)).bind
    rintro _ _ ⟨here, enough⟩
    apply Ensures.get_bind
    rw [here.opcode]
    apply (moveOpcode_spec here enough).bind
    intro _ _ here
    exact Ensures.pure ⟨⟨_, by omega, enough, here⟩, fun _ => enough⟩
  intro _
  apply Ensures.ite
  · intro _
    apply (contextAdvanceOpcode_spec fits here inside).bind
    rintro _ _ ⟨here, more⟩
    apply (currentByte_spec (by rw [here.opcode]; exact more)).bind
    rintro count _ rfl
    apply (contextPeekBytes_spec fits here (Nat.le_of_lt more)).bind
    rintro _ _ ⟨here, enough⟩
    apply Ensures.get_bind
    rw [here.opcode]
    apply (moveOpcode_spec here enough).bind
    intro _ _ here
    refine Ensures.pure ⟨⟨_, by omega, enough, here⟩, ?_⟩
    intro _
    simp only
    omega
  · intro _
    apply (contextPeekBytes_spec fits here inside).bind
    rintro _ _ ⟨here, enough⟩
    apply Ensures.get_bind
    rw [here.opcode]
    apply (moveOpcode_spec here enough).bind
    intro _ _ here
    have advanced : opcode < opcode + identLen := Nat.lt_add_of_pos_right (by decide)
    refine Ensures.pure ⟨⟨_, advanced, enough, here⟩, ?_⟩
    intro _
    simp only [one_mul]
    exact enough

theorem parseNameString_spec
    (ready : Ready lookup opcode identifier entriesFound) (work : opcode < lookup.tableEnd) :
    Runs lookup (parseNameString lookup)
      (fun name final => Advanced lookup opcode identifier entriesFound final ∧
        NameInside lookup name)
      ctx := by
  apply leaving_spec
  apply (contextHasWork_spec here ready work).bind
  intro _ _ here
  apply (contextIncreaseNesting_spec here ready).bind
  intro _ _ here
  apply (skipNamePrefix_spec fits here work).bind
  rintro isRootPath _ ⟨target, further, work, here⟩
  apply (parseNameSegments_spec fits here work).bind
  rintro name _ ⟨⟨target', further', inside, here⟩, named⟩
  apply (contextDecreaseNesting_spec here).bind
  intro _ _ here
  exact Ensures.pure ⟨⟨target', by omega, inside, here⟩, named⟩

theorem parsePkgLengthBytes_spec {leadByte : UInt8} (inside : opcode ≤ lookup.tableEnd) :
    Runs lookup (parsePkgLengthBytes lookup leadByte)
      (fun _ final => ∃ target, opcode ≤ target ∧ target ≤ lookup.tableEnd ∧
        At target identifier entriesFound final)
      ctx := by
  apply Ensures.ite
  · intro _
    apply (contextPeekBytes_spec fits here inside).bind
    rintro _ _ ⟨here, enough⟩
    apply Ensures.get_bind
    rw [here.opcode]
    have bytes : ∀ index ∈ List.range (pkgByteCount leadByte),
        opcode + index < lookup.tableEnd := by
      intro index member
      rw [mem_range] at member
      omega
    apply (pkgLengthBytes_spec bytes).bind
    rintro total _ rfl
    apply (contextConsumeBytes_spec fits here inside).bind
    rintro _ _ ⟨here, within⟩
    exact Ensures.pure ⟨_, Nat.le_add_right _ _, within, here⟩
  · intro _
    exact Ensures.pure ⟨opcode, Nat.le_refl _, inside, here⟩

theorem parsePkgLength_spec
    (ready : Ready lookup opcode identifier entriesFound) (work : opcode < lookup.tableEnd) :
    Runs lookup (parsePkgLength lookup)
      (fun _ final => Advanced lookup opcode identifier entriesFound final) ctx := by
  apply leaving_spec
  apply (contextHasWork_spec here ready work).bind
  intro _ _ here
  apply (contextIncreaseNesting_spec here ready).bind
  intro _ _ here
  apply (currentByte_spec (by rw [here.opcode]; exact work)).bind
  rintro leadByte _ rfl
  apply (contextConsumeBytes_spec fits here (Nat.le_of_lt work)).bind
  rintro _ _ ⟨here, within⟩
  apply (parsePkgLengthBytes_spec fits here within).bind
  rintro length _ ⟨target, further, inside, here⟩
  apply (contextDecreaseNesting_spec here).bind
  intro _ _ here
  exact Ensures.pure ⟨target, by omega, inside, here⟩

end

end Names

section Matching

variable {name : Nat}

theorem compareCharacters_spec {indices : List Nat}
    (inside : ∀ index ∈ indices, name + index < lookup.tableEnd)
    (named : ctx.currentIdentifier < lookup.pathEnd) :
    Runs lookup (compareCharacters lookup name indices) (fun _ final => final = ctx)
      ctx := by
  induction indices with
  | nil => exact Ensures.pure rfl
  | cons index rest ih =>
    apply (readTable_spec (inside index mem_cons_self)).bind
    rintro ch _ rfl
    apply Ensures.get_bind
    apply (readPath_spec named).bind
    rintro expected _ rfl
    apply Ensures.ite
    · intro _
      exact ih fun later member => inside later (mem_cons_of_mem _ member)
    · intro _
      exact Ensures.pure rfl

theorem matchIdentifier_spec (inside : name + identLen ≤ lookup.tableEnd)
    (named : ctx.currentIdentifier < lookup.pathEnd) :
    Runs lookup (matchIdentifier lookup name) (fun _ final => final = ctx) ctx := by
  apply compareCharacters_spec
  · intro index member
    rw [mem_range] at member
    omega
  · exact named

/-- A comparison never exits, leaves the context alone and reads the current
identifier, wherever the path ends. -/
theorem compareCharacters_run (lookup : Lookup) (name : Nat) (indices : List Nat) (ctx : Context) :
    ∃ same marks, compareCharacters lookup name indices ctx = ((.ok same, ctx), marks) ∧
      (indices ≠ [] → Mark.pathRead ctx.currentIdentifier ∈ marks) := by
  induction indices with
  | nil => exact ⟨true, [], rfl, fun some => absurd rfl some⟩
  | cons index rest ih =>
    obtain ⟨same, marks, run, -⟩ := ih
    by_cases equal : lookup.table (name + index) =
        UInt8.ofNat ((lookup.path ctx.currentIdentifier).toNat / 256 ^ (identLen - index - 1))
    · refine ⟨same, .tableRead (name + index) :: .pathRead ctx.currentIdentifier :: marks, ?_,
        fun _ => mem_cons_of_mem _ mem_cons_self⟩
      simp [compareCharacters, readTable, readPath, Action.emit, Action.get, bind, Action.bind,
        pure, Action.pure, equal, run]
    · refine ⟨false, [.tableRead (name + index), .pathRead ctx.currentIdentifier], ?_,
        fun _ => mem_cons_of_mem _ mem_cons_self⟩
      simp [compareCharacters, readTable, readPath, Action.emit, Action.get, bind, Action.bind,
        pure, Action.pure, equal]

section

variable (here : At opcode identifier entriesFound ctx)
include here

/-- The comparison behind the current identifier: unchecked by the code, so the
step is marked. -/
theorem compareNextIdentifier_spec (inside : name + identLen ≤ lookup.tableEnd) :
    Runs lookup (compareNextIdentifier lookup name)
      (fun _ final => At opcode (identifier + 1) entriesFound final) ctx := by
  obtain ⟨rfl, rfl, rfl⟩ := here
  by_cases further : ctx.currentIdentifier + 1 < lookup.pathEnd
  · apply Ensures.get_bind
    apply (setIdentifier_spec (at_self ctx)).bind
    intro _ final here
    apply (matchIdentifier_spec inside (by rw [here.identifier]; exact further)).bind
    rintro same final rfl
    have marked : Runs lookup (Action.emit [.compareNext ctx.currentIdentifier])
        (fun _ reached => reached = final) final := emit_spec further trivial
    apply marked.bind
    rintro _ _ rfl
    exact Ensures.pure here
  · -- both the marked step and the read behind the path are bad
    obtain ⟨same, marks, run, reads⟩ := compareCharacters_run lookup name
      (List.range identLen) { ctx with currentIdentifier := ctx.currentIdentifier + 1 }
    have whole : compareNextIdentifier lookup name ctx =
        ((.ok same, { ctx with currentIdentifier := ctx.currentIdentifier + 1 }),
          marks ++ [.compareNext ctx.currentIdentifier]) := by
      simp [compareNextIdentifier, setIdentifier, matchIdentifier, run, Action.emit, Action.get,
        Action.modify, bind, Action.bind, pure, Action.pure]
    have notMet : ¬ All (Mark.Meets lookup) (marks ++ [.compareNext ctx.currentIdentifier]) :=
      fun all => further (all _ (mem_append_right _ mem_cons_self))
    have notAllowed :
        ¬ All (Mark.Allowed lookup) (marks ++ [.compareNext ctx.currentIdentifier]) :=
      fun all => further (all _ (mem_append_left _ (reads (by decide))))
    rw [Runs, Ensures, whole]
    exact ⟨iff_of_false notMet notAllowed, fun all => absurd all notMet⟩

theorem matchScopeName_spec {name count : Nat} (within : identifier ≤ lookup.pathEnd)
    (inside : 0 < count → name + count * identLen ≤ lookup.tableEnd) :
    Runs lookup (matchScopeName lookup name count)
      (fun _ final => ∃ reached, reached ≤ lookup.pathEnd ∧ At opcode reached entriesFound final)
      ctx := by
  induction count generalizing name identifier ctx with
  | zero => exact Ensures.pure ⟨identifier, within, here⟩
  | succ count ih =>
    have first := inside (Nat.succ_pos count)
    rw [Nat.succ_mul] at first
    apply Ensures.get_bind
    rw [here.identifier]
    apply Ensures.ite
    · intro _
      apply (setIdentifier_spec here).imp
      exact fun _ _ here => ⟨0, Nat.zero_le _, here⟩
    · intro before
      have named : ctx.currentIdentifier < lookup.pathEnd := by
        rw [here.identifier]
        omega
      apply (matchIdentifier_spec (by omega) named).bind
      rintro same _ rfl
      apply Ensures.ite
      · intro _
        apply (setIdentifier_spec here).bind
        intro _ _ here
        exact ih here (by omega) fun _ => by omega
      · intro _
        apply (setIdentifier_spec here).imp
        exact fun _ _ here => ⟨0, Nat.zero_le _, here⟩

theorem matchWholeName_spec {name count : Nat} (within : identifier ≤ lookup.pathEnd)
    (inside : 0 < count → name + count * identLen ≤ lookup.tableEnd) :
    Runs lookup (matchWholeName lookup name count)
      (fun _ final => ∃ reached, reached ≤ lookup.pathEnd ∧ At opcode reached entriesFound final)
      ctx := by
  induction count generalizing name identifier ctx with
  | zero =>
    apply Ensures.get_bind
    exact Ensures.pure ⟨identifier, within, here⟩
  | succ count ih =>
    have first := inside (Nat.succ_pos count)
    rw [Nat.succ_mul] at first
    apply Ensures.get_bind
    rw [here.identifier]
    apply Ensures.ite
    · intro _
      exact Ensures.pure ⟨identifier, within, here⟩
    · intro before
      have named : ctx.currentIdentifier < lookup.pathEnd := by
        rw [here.identifier]
        omega
      apply (matchIdentifier_spec (by omega) named).bind
      rintro same _ rfl
      apply Ensures.ite
      · intro _
        apply (setIdentifier_spec here).bind
        intro _ _ here
        exact ih here (by omega) fun _ => by omega
      · intro _
        exact Ensures.pure ⟨identifier, within, here⟩

theorem skipBlock_spec {blockEnd target : Nat} (ready : Ready lookup blockEnd target entriesFound) :
    Parses lookup (skipBlock blockEnd target) ctx := by
  apply (moveOpcode_spec here ready.opcode).bind
  intro _ _ here
  apply (setIdentifier_spec here).bind
  intro _ _ here
  exact notFound_spec here ready

end

theorem foundAt_spec {start : Nat} (inside : ctx.currentOpcode ≤ lookup.tableEnd) :
    Parses lookup (foundAt start) ctx :=
  Ensures.modify_bind (Ensures.pure inside)

variable (entries : lookup.requiredEntry < 2 ^ 32)
include entries

theorem countEntry_spec (here : At opcode identifier entriesFound ctx)
    (missing : entriesFound < lookup.requiredEntry) :
    Runs lookup (countEntry lookup)
      (fun reached final => At opcode identifier (entriesFound + 1) final ∧
        (reached = false → entriesFound + 1 < lookup.requiredEntry))
      ctx := by
  obtain ⟨rfl, rfl, rfl⟩ := here
  apply Ensures.modify_bind
  apply Ensures.get_bind
  have counted : (ctx.entriesFound + 1) % 2 ^ 32 = ctx.entriesFound + 1 :=
    Nat.mod_eq_of_lt (by omega)
  refine Ensures.pure ⟨⟨rfl, rfl, counted⟩, ?_⟩
  intro more
  simp only [counted, beq_eq_false_iff_ne] at more
  omega

theorem finishMatch_spec {start blockEnd target : Nat}
    (here : At opcode identifier entriesFound ctx) (inside : opcode ≤ lookup.tableEnd)
    (ready : Ready lookup blockEnd target entriesFound) :
    Parses lookup (finishMatch lookup start blockEnd target) ctx := by
  apply (countEntry_spec entries here ready.entriesFound).bind
  rintro reached final ⟨here, more⟩
  apply Ensures.ite
  · intro _
    exact foundAt_spec (by rw [here.opcode]; exact inside)
  · intro missing
    exact skipBlock_spec here
      ⟨ready.opcode, ready.identifier, more (Bool.eq_false_iff.mpr missing)⟩

end Matching

section Skipped

variable (fits : lookup.tableEnd < 2 ^ 32)
variable {parser : ParserName} {bytes : Nat}
include fits
variable (here : At opcode identifier entriesFound ctx)
  (ready : Ready lookup opcode identifier entriesFound) (work : opcode < lookup.tableEnd)
include here ready work

theorem skippedName_spec :
    Runs lookup (orDeviceError (parseNameString lookup))
      (fun name final => Advanced lookup opcode identifier entriesFound final ∧
        NameInside lookup name)
      ctx :=
  orDeviceError_spec (parseNameString_spec fits here ready work)

theorem parseAlias_spec : Parses lookup (parseAlias lookup) ctx := by
  apply enter_spec here ready work
  intro _ here
  apply (skippedName_spec fits here ready work).bind
  rintro _ _ ⟨⟨target, _, inside, here⟩, -⟩
  apply (contextPeekBytes_spec fits here inside).bind
  rintro _ _ ⟨here, more⟩
  apply (skippedName_spec fits here (ready.move inside) more).bind
  rintro _ _ ⟨⟨target', _, inside', here⟩, -⟩
  exact notFound_spec here (ready.move inside')

theorem skipPackage_spec : Skips lookup (skipPackage lookup) identifier entriesFound ctx := by
  apply Ensures.get_bind
  apply (orDeviceError_spec (parsePkgLength_spec fits here ready work)).bind
  rintro length _ ⟨_, _, _, moved⟩
  rw [here.opcode]
  apply (moveOpcode_spec moved ready.opcode).bind
  intro _ _ back
  apply (contextConsumeBytes_spec fits back ready.opcode).imp
  rintro _ _ ⟨here, inside⟩
  exact ⟨_, inside, here⟩

omit ready work in
theorem skipString_spec {fuel : Nat} (inside : opcode ≤ lookup.tableEnd) :
    Skips lookup (skipString lookup fuel) identifier entriesFound ctx := by
  induction fuel generalizing opcode ctx with
  | zero => exact Ensures.exit trivial
  | succ fuel ih =>
    apply (contextAdvanceOpcode_spec fits here inside).bind
    rintro _ _ ⟨here, more⟩
    apply (currentByte_spec (by rw [here.opcode]; exact more)).bind
    rintro byte _ rfl
    apply Ensures.ite
    · intro _
      exact ih here (Nat.le_of_lt more)
    · intro _
      apply (deviceErrorIf_spec (by rw [here.opcode]; exact Nat.le_of_lt more)).bind
      rintro _ _ ⟨rfl, -⟩
      apply (contextConsumeBytes_spec fits here (Nat.le_of_lt more)).imp
      rintro _ _ ⟨here, within⟩
      exact ⟨_, within, here⟩

omit ready work in
theorem consumed_spec (inside : opcode ≤ lookup.tableEnd) :
    Skips lookup (contextConsumeBytes lookup bytes) identifier entriesFound ctx := by
  apply (contextConsumeBytes_spec fits here inside).imp
  rintro _ _ ⟨here, within⟩
  exact ⟨_, within, here⟩

omit work in
theorem skipNameObject_spec {byte : UInt8} :
    Skips lookup (skipNameObject lookup byte) identifier entriesFound ctx := by
  rw [skipNameObject]
  cases integerSize byte with
  | some size => exact consumed_spec fits here ready.opcode
  | none =>
    apply Ensures.ite
    · intro _
      exact consumed_spec fits here ready.opcode
    intro _
    apply Ensures.ite
    · intro _
      exact consumed_spec fits here ready.opcode
    intro _
    apply Ensures.ite
    · intro _
      exact skipString_spec fits here ready.opcode
    intro _
    apply Ensures.ite
    · intro _
      apply (contextAdvanceOpcode_spec fits here ready.opcode).bind
      rintro _ _ ⟨here, more⟩
      exact skipPackage_spec fits here (ready.move (Nat.le_of_lt more)) more
    · intro _
      exact Ensures.exit (left_of_ready here ready _)

theorem parseName_spec : Parses lookup (parseName lookup) ctx := by
  apply enter_spec here ready work
  intro _ here
  apply (skippedName_spec fits here ready work).bind
  rintro _ _ ⟨⟨target, _, inside, here⟩, -⟩
  apply (contextPeekBytes_spec fits here inside).bind
  rintro _ _ ⟨here, more⟩
  apply (currentByte_spec (by rw [here.opcode]; exact more)).bind
  rintro byte _ rfl
  apply (skipNameObject_spec fits here (ready.move inside)).bind
  rintro _ _ ⟨target', inside', here⟩
  exact notFound_spec here (ready.move inside')

theorem parseNameAndBytes_spec : Parses lookup (parseNameAndBytes lookup parser bytes) ctx := by
  apply enter_spec here ready work
  intro _ here
  apply (skippedName_spec fits here ready work).bind
  rintro _ _ ⟨⟨target, _, inside, here⟩, -⟩
  apply (contextConsumeBytes_spec fits here inside).bind
  rintro _ _ ⟨here, within⟩
  exact notFound_spec here (ready.move within)

theorem parseEvent_spec : Parses lookup (parseEvent lookup) ctx := by
  apply enter_spec here ready work
  intro _ here
  apply (skippedName_spec fits here ready work).bind
  rintro _ _ ⟨⟨target, _, inside, here⟩, -⟩
  exact notFound_spec here (ready.move inside)

theorem skipOperand_spec : Skips lookup (skipOperand lookup) identifier entriesFound ctx := by
  apply (currentByte_spec (by rw [here.opcode]; exact work)).bind
  rintro byte _ rfl
  cases integerSize byte with
  | some size => exact consumed_spec fits here ready.opcode
  | none =>
    apply (skippedName_spec fits here ready work).bind
    rintro _ _ ⟨⟨target, _, inside, here⟩, -⟩
    exact Ensures.pure ⟨target, inside, here⟩

theorem skipRegionArgument_spec :
    Skips lookup (skipRegionArgument lookup) identifier entriesFound ctx := by
  apply (currentByte_spec (by rw [here.opcode]; exact work)).bind
  rintro byte _ rfl
  apply Ensures.ite
  · intro _
    apply (contextAdvanceOpcode_spec fits here ready.opcode).bind
    rintro _ _ ⟨here, more⟩
    apply (skipOperand_spec fits here (ready.move (Nat.le_of_lt more)) more).bind
    rintro _ _ ⟨first, insideFirst, here⟩
    apply (contextPeekBytes_spec fits here insideFirst).bind
    rintro _ _ ⟨here, more⟩
    apply (skipOperand_spec fits here (ready.move insideFirst) more).bind
    rintro _ _ ⟨second, insideSecond, here⟩
    apply (contextPeekBytes_spec fits here insideSecond).bind
    rintro _ _ ⟨here, more⟩
    apply (skippedName_spec fits here (ready.move insideSecond) more).bind
    rintro _ _ ⟨⟨target, _, inside, here⟩, -⟩
    exact Ensures.pure ⟨target, inside, here⟩
  · intro _
    exact skipOperand_spec fits here ready work

theorem parseOpRegion_spec : Parses lookup (parseOpRegion lookup) ctx := by
  apply enter_spec here ready work
  intro _ here
  apply (skippedName_spec fits here ready work).bind
  rintro _ _ ⟨⟨target, _, inside, here⟩, -⟩
  apply (contextAdvanceOpcode_spec fits here inside).bind
  rintro _ _ ⟨here, more⟩
  apply (skipRegionArgument_spec fits here (ready.move (Nat.le_of_lt more)) more).bind
  rintro _ _ ⟨offset, insideOffset, here⟩
  apply (contextPeekBytes_spec fits here insideOffset).bind
  rintro _ _ ⟨here, more⟩
  apply (skipRegionArgument_spec fits here (ready.move insideOffset) more).bind
  rintro _ _ ⟨length, insideLength, here⟩
  exact notFound_spec here (ready.move insideLength)

theorem parseSkippedPackage_spec : Parses lookup (parseSkippedPackage lookup parser) ctx := by
  apply enter_spec here ready work
  intro _ here
  apply (skipPackage_spec fits here ready work).bind
  rintro _ _ ⟨target, inside, here⟩
  exact notFound_spec here (ready.move inside)

end Skipped

section Blocks

variable {name : NamePath} {blockEnd : Nat}

section

variable (here : At opcode identifier entriesFound ctx) (inside : opcode ≤ lookup.tableEnd)
include here inside

theorem deviceErrorUnlessBefore_spec :
    Runs lookup (deviceErrorUnlessBefore blockEnd)
      (fun _ final => At opcode identifier entriesFound final ∧ opcode < blockEnd) ctx := by
  obtain ⟨rfl, rfl, rfl⟩ := here
  apply Ensures.get_bind
  apply (deviceErrorIf_spec inside).imp
  rintro _ _ ⟨rfl, before⟩
  rw [decide_eq_false_iff_not] at before
  exact ⟨at_self _, by omega⟩

theorem deviceErrorIfBehind_spec :
    Runs lookup (deviceErrorIfBehind blockEnd)
      (fun _ final => At opcode identifier entriesFound final) ctx := by
  obtain ⟨rfl, rfl, rfl⟩ := here
  apply Ensures.get_bind
  apply (deviceErrorIf_spec inside).imp
  rintro _ _ ⟨rfl, -⟩
  exact at_self _

theorem deviceErrorIf_at {condition : Bool} :
    Runs lookup (deviceErrorIf condition)
      (fun _ final => At opcode identifier entriesFound final ∧ condition = false) ctx := by
  apply (deviceErrorIf_spec (by rw [here.opcode]; exact inside)).imp
  rintro _ _ ⟨rfl, passed⟩
  exact ⟨here, passed⟩

end

theorem nameInside_single (named : NameInside lookup name)
    (single : decide (name.pathLength ≠ 1) = false) :
    name.namePathStart + identLen ≤ lookup.tableEnd := by
  have one : name.pathLength = 1 := by
    simpa using single
  have inside := named (by omega)
  rwa [one, one_mul] at inside

theorem parseBlockEnd_spec (fits : lookup.tableEnd < 2 ^ 32)
    (here : At opcode identifier entriesFound ctx)
    (ready : Ready lookup opcode identifier entriesFound) (work : opcode < lookup.tableEnd) :
    Runs lookup (parseBlockEnd lookup)
      (fun blockEnd final => blockEnd ≤ lookup.tableEnd ∧
        Advanced lookup opcode identifier entriesFound final)
      ctx := by
  apply Ensures.get_bind
  apply (orDeviceError_spec (parsePkgLength_spec fits here ready work)).bind
  rintro length _ ⟨target, further, inside, moved⟩
  rw [here.opcode]
  apply (deviceErrorIf_at moved inside).bind
  rintro _ _ ⟨moved, enough⟩
  rw [remaining_eq fits ready.opcode, decide_eq_false_iff_not] at enough
  have work' := ready.opcode
  exact Ensures.pure ⟨by omega, target, further, inside, moved⟩

theorem matchLastIdentifier_spec {start blockEnd : Nat}
    (entries : lookup.requiredEntry < 2 ^ 32)
    (here : At opcode identifier entriesFound ctx)
    (ready : Ready lookup opcode identifier entriesFound) (ends : blockEnd ≤ lookup.tableEnd)
    (named : NameInside lookup name) :
    Parses lookup (matchLastIdentifier lookup start blockEnd name) ctx := by
  have earlier : identifier - 1 < lookup.pathEnd :=
    Nat.lt_of_le_of_lt (Nat.sub_le _ _) ready.identifier
  apply (deviceErrorIf_at here ready.opcode).bind
  rintro _ _ ⟨here, single⟩
  apply Ensures.get_bind
  rw [here.identifier]
  have characters := nameInside_single named single
  apply (matchIdentifier_spec characters (by rw [here.identifier]; exact ready.identifier)).bind
  rintro same _ rfl
  apply Ensures.ite
  · intro _
    exact finishMatch_spec entries here ready.opcode ⟨ends, earlier, ready.entriesFound⟩
  · intro _
    exact skipBlock_spec here ⟨ends, earlier, ready.entriesFound⟩

variable (fits : lookup.tableEnd < 2 ^ 32) (entries : lookup.requiredEntry < 2 ^ 32)
include fits entries
variable (here : At opcode identifier entriesFound ctx)
  (ready : Ready lookup opcode identifier entriesFound) (work : opcode < lookup.tableEnd)
include here ready work

theorem parseNamedBlock_spec {parser : ParserName} :
    Parses lookup (parseNamedBlock lookup parser) ctx := by
  apply enter_spec here ready work
  intro _ here
  apply Ensures.get_bind
  rw [here.opcode, here.identifier]
  apply (parseBlockEnd_spec fits here ready work).bind
  rintro blockEnd _ ⟨ends, target, further, inside, here⟩
  apply (deviceErrorUnlessBefore_spec here inside).bind
  rintro _ _ ⟨here, before⟩
  apply (skippedName_spec fits here (ready.move inside) (by omega)).bind
  rintro name _ ⟨⟨behind, _, insideName, here⟩, named⟩
  apply (deviceErrorIfBehind_spec here insideName).bind
  intro _ _ here
  apply (matchWholeName_spec here (Nat.le_of_lt ready.identifier) named).bind
  rintro whole _ ⟨reached, _, here⟩
  apply Ensures.ite
  · intro _
    exact finishMatch_spec entries here insideName (ready.move ends)
  · intro _
    exact skipBlock_spec here (ready.move ends)

theorem parseBankField_spec : Parses lookup (parseBankField lookup) ctx := by
  apply enter_spec here ready work
  intro _ here
  apply Ensures.get_bind
  rw [here.opcode, here.identifier]
  apply (parseBlockEnd_spec fits here ready work).bind
  rintro bankEnd _ ⟨ends, target, further, inside, here⟩
  apply (contextPeekBytes_spec fits here inside).bind
  rintro _ _ ⟨here, more⟩
  apply (skippedName_spec fits here (ready.move inside) more).bind
  rintro name _ ⟨⟨behind, _, insideName, here⟩, named⟩
  apply (deviceErrorUnlessBefore_spec here insideName).bind
  rintro _ _ ⟨here, before⟩
  apply (deviceErrorIf_at here insideName).bind
  rintro _ _ ⟨here, single⟩
  have characters := nameInside_single named single
  apply (matchIdentifier_spec characters (by rw [here.identifier]; exact ready.identifier)).bind
  rintro same _ rfl
  apply Ensures.ite
  · intro _
    apply (setIdentifier_spec here).bind
    intro _ _ here
    apply (contextPeekBytes_spec fits here insideName).bind
    rintro _ _ ⟨here, _⟩
    apply Ensures.ite
    · intro _
      apply (setIdentifier_spec here).bind
      intro _ _ here
      apply (skippedName_spec fits here (ready.move insideName) (by omega)).bind
      rintro _ _ ⟨⟨_, _, _, here⟩, -⟩
      exact skipBlock_spec here (ready.move ends)
    · intro notLast
      have next : identifier + 1 < lookup.pathEnd := by
        have current := ready.identifier
        omega
      have readyNext := (ready.move insideName).rename next
      apply (skippedName_spec fits here readyNext (by omega)).bind
      rintro name _ ⟨⟨last, _, insideLast, here⟩, named⟩
      apply (deviceErrorIfBehind_spec here insideLast).bind
      intro _ _ here
      exact matchLastIdentifier_spec entries here (readyNext.move insideLast) ends named
  · intro _
    exact skipBlock_spec here (ready.move ends)

theorem parseIndexField_spec : Parses lookup (parseIndexField lookup) ctx := by
  apply enter_spec here ready work
  intro _ here
  apply Ensures.get_bind
  rw [here.opcode, here.identifier]
  apply (parseBlockEnd_spec fits here ready work).bind
  rintro fieldEnd _ ⟨ends, target, further, inside, here⟩
  apply (deviceErrorUnlessBefore_spec here inside).bind
  rintro _ _ ⟨here, before⟩
  apply (skippedName_spec fits here (ready.move inside) (by omega)).bind
  rintro name _ ⟨⟨behind, _, insideName, here⟩, named⟩
  apply (deviceErrorUnlessBefore_spec here insideName).bind
  rintro _ _ ⟨here, before⟩
  apply (deviceErrorIf_at here insideName).bind
  rintro _ _ ⟨here, single⟩
  have characters := nameInside_single named single
  apply (matchIdentifier_spec characters (by rw [here.identifier]; exact ready.identifier)).bind
  rintro same _ rfl
  apply Ensures.ite
  · intro _
    apply (setIdentifier_spec here).bind
    intro _ _ here
    apply (deviceErrorIf_at here insideName).bind
    rintro _ _ ⟨here, notLast⟩
    rw [decide_eq_false_iff_not] at notLast
    have next : identifier + 1 < lookup.pathEnd := by
      have current := ready.identifier
      omega
    have readyNext := (ready.move insideName).rename next
    apply (contextPeekBytes_spec fits here insideName).bind
    rintro _ _ ⟨here, more⟩
    apply (skippedName_spec fits here readyNext more).bind
    rintro name _ ⟨⟨last, _, insideLast, here⟩, named⟩
    apply (deviceErrorUnlessBefore_spec here insideLast).bind
    rintro _ _ ⟨here, _⟩
    exact matchLastIdentifier_spec entries here (readyNext.move insideLast) ends named
  · intro _
    apply (skippedName_spec fits here (ready.move insideName) (by omega)).bind
    rintro _ _ ⟨⟨_, _, _, here⟩, -⟩
    exact skipBlock_spec here (ready.move ends)

omit ready work in
omit entries in
theorem consumeIfCreateField_spec {start bytes : Nat} (inside : opcode ≤ lookup.tableEnd)
    (before : start - 1 < lookup.tableEnd) :
    Skips lookup (consumeIfCreateField lookup start bytes) identifier entriesFound ctx := by
  apply (readTable_spec before).bind
  rintro _ _ rfl
  apply Ensures.ite
  · intro _
    exact consumed_spec fits here inside
  · intro _
    exact Ensures.pure ⟨opcode, inside, here⟩

omit ready in
omit entries in
theorem skipIndex_spec : Skips lookup (skipIndex lookup) identifier entriesFound ctx := by
  apply (currentByte_spec (by rw [here.opcode]; exact work)).bind
  rintro byte _ rfl
  cases integerSize byte with
  | some size => exact consumed_spec fits here (Nat.le_of_lt work)
  | none => exact Ensures.pure ⟨opcode, Nat.le_of_lt work, here⟩

omit work in
omit fits in
theorem matchCreatedField_spec {start name : Nat}
    (inside : name + identLen ≤ lookup.tableEnd) :
    Parses lookup (matchCreatedField lookup start name) ctx := by
  apply Ensures.get_bind
  rw [here.identifier]
  apply (compareNextIdentifier_spec here inside).bind
  intro same _ here
  apply (setIdentifier_spec here).bind
  intro _ _ here
  apply Ensures.ite
  · intro _
    apply (countEntry_spec entries here ready.entriesFound).bind
    rintro reached _ ⟨here, more⟩
    apply Ensures.ite
    · intro _
      apply (setIdentifier_spec here).bind
      intro _ _ here
      exact foundAt_spec (by rw [here.opcode]; exact ready.opcode)
    · intro missing
      exact notFound_spec here
        ⟨ready.opcode, ready.identifier, more (Bool.eq_false_iff.mpr missing)⟩
  · intro _
    exact notFound_spec here ready

theorem parseCreateField_spec : Parses lookup (parseCreateField lookup) ctx := by
  have before : opcode - 1 < lookup.tableEnd := by omega
  apply enter_spec here ready work
  intro _ here
  apply Ensures.get_bind
  rw [here.opcode]
  apply (currentByte_spec (by rw [here.opcode]; exact work)).bind
  rintro byte _ rfl
  apply Ensures.ite
  · intro _
    apply (consumed_spec fits here ready.opcode).bind
    rintro _ _ ⟨argument, insideArgument, here⟩
    apply (consumeIfCreateField_spec fits here insideArgument before).bind
    rintro _ _ ⟨target, inside, here⟩
    apply (contextPeekBytes_spec fits here inside).bind
    rintro _ _ ⟨here, more⟩
    apply (skippedName_spec fits here (ready.move inside) more).bind
    rintro _ _ ⟨⟨behind, _, insideName, here⟩, -⟩
    exact notFound_spec here (ready.move insideName)
  · intro _
    apply (skippedName_spec fits here ready work).bind
    rintro name _ ⟨⟨behind, _, insideName, here⟩, named⟩
    apply (deviceErrorIf_at here insideName).bind
    rintro _ _ ⟨here, single⟩
    have characters := nameInside_single named single
    apply (matchIdentifier_spec characters
      (by rw [here.identifier]; exact ready.identifier)).bind
    rintro matched _ rfl
    apply (contextPeekBytes_spec fits here insideName).bind
    rintro _ _ ⟨here, more⟩
    apply (skipIndex_spec fits here more).bind
    rintro _ _ ⟨index, insideIndex, here⟩
    apply (consumeIfCreateField_spec fits here insideIndex before).bind
    rintro _ _ ⟨target, inside, here⟩
    apply (contextPeekBytes_spec fits here inside).bind
    rintro _ _ ⟨here, more⟩
    apply (skippedName_spec fits here (ready.move inside) more).bind
    rintro created _ ⟨⟨last, _, insideLast, here⟩, named⟩
    apply (deviceErrorIf_at here insideLast).bind
    rintro _ _ ⟨here, single⟩
    apply Ensures.ite
    · intro _
      exact matchCreatedField_spec entries here (ready.move insideLast)
        (nameInside_single named single)
    · intro _
      exact notFound_spec here (ready.move insideLast)

end Blocks

end OpenCore.AcpiParserSafety
