import OpenCore.Relocation

/-!
`InternalRelocateAndCopyRelocations`: the relocations of a kext one after the other,
where a relocation may take the entry behind it as its pair. Next to what the source
keeps, a run logs the entries it hands to `InternalRelocateRelocation`.
-/

namespace OpenCore.RelocationRun

open AddressSpace Relocation List

def isAbsolute (relocation : RelocationInfo) : Bool :=
  !relocation.isExtern && relocation.symbolNumber == 0

def toLocal (relocation : RelocationInfo) : RelocationInfo :=
  if relocation.isExtern then { relocation with isExtern := false, symbolNumber := 1 } else relocation

structure Section32 where
  address : BitVec 64
  relocations : List RelocationInfo

structure RunState where
  memory : Memory
  target : List RelocationInfo
  processed : List (Nat × RelocationInfo)
  sectionProcessed : List (Nat × Nat × RelocationInfo)
  patches : List (Displacement × Memory)

section Loops
variable {Name : Type} (view : LinkView Name) (loadAddress relocationBase : BitVec 64)

def RunState.relocated (state : RunState) (done : Relocated) : RunState :=
  { state with
    memory := done.memory
    patches := state.patches ++ done.displacement.toList.map fun patch => (patch, done.memory) }

/-- The loop over the source relocations from an index on; `skip` where the entry there has
been taken already. -/
def relocateList : Bool → Nat → List RelocationInfo → RunState → Option RunState
  | _, _, [], state => some state
  | true, index, _ :: rest, state => relocateList false (index + 1) rest state
  | false, index, relocation :: rest, state =>
    if isAbsolute relocation then relocateList false (index + 1) rest state
    else
      match internalRelocateRelocation view state.memory loadAddress relocationBase relocation
          rest.head? with
      | none => none
      | some done =>
        let state := state.relocated done
        relocateList done.isPair (index + 1) rest
          { state with
            processed := state.processed ++ [(index, relocation)]
            target := if done.preserved then state.target ++ [toLocal relocation]
              else state.target }

def relocateSection (number : Nat) (address : BitVec 64) :
    Nat → List RelocationInfo → RunState → Option RunState
  | _, [], state => some state
  | index, relocation :: rest, state =>
    match internalRelocateRelocation view state.memory loadAddress (relocationBase + address)
        relocation rest.head? with
    | none => none
    | some done =>
      let state := state.relocated done
      relocateSection number address (index + 1) rest
        { state with
          sectionProcessed := state.sectionProcessed ++ [(number, index, relocation)] }

def relocateSections : Nat → List Section32 → RunState → Option RunState
  | _, [], state => some state
  | number, item :: rest, state =>
    match relocateSection view loadAddress relocationBase number item.address 0 item.relocations
        state with
    | none => none
    | some state => relocateSections (number + 1) rest state

def internalRelocateAndCopyRelocations (sections : List Section32) (source : List RelocationInfo)
    (memory : Memory) : Option RunState :=
  let start : RunState := ⟨memory, [], [], [], []⟩
  if view.is32Bit ∧ source = [] then
    relocateSections view loadAddress relocationBase 0 sections start
  else relocateList view loadAddress relocationBase false 0 source start

end Loops

section Expected

def isSubtractor (is32Bit : Bool) (relocation : RelocationInfo) : Bool :=
  !is32Bit && relocation.type == machX8664RelocSubtractor

/-- The entries to be processed, where `pairs` says which take the next one along. -/
def walked (pairs : RelocationInfo → Bool) :
    Bool → Nat → List RelocationInfo → List (Nat × RelocationInfo)
  | _, _, [] => []
  | true, index, _ :: rest => walked pairs false (index + 1) rest
  | false, index, relocation :: rest =>
    if isAbsolute relocation then walked pairs false (index + 1) rest
    else (index, relocation) :: walked pairs (pairs relocation) (index + 1) rest

def sectionEntries : Nat → List Section32 → List (Nat × Nat × RelocationInfo)
  | _, [] => []
  | number, item :: rest =>
    (item.relocations.zipIdx.map fun (relocation, index) => (number, index, relocation)) ++
      sectionEntries (number + 1) rest

def NothingLost (is32Bit : Bool) : Bool → List RelocationInfo → Prop
  | _, [] => True
  | true, _ :: rest => NothingLost is32Bit false rest
  | false, relocation :: rest =>
    if isAbsolute relocation then NothingLost is32Bit false rest
    else
      (takesNext is32Bit relocation = true → isSubtractor is32Bit relocation = false →
        ∀ next ∈ rest.head?, isAbsolute next = true) ∧
      NothingLost is32Bit (isSubtractor is32Bit relocation) rest

structure RelocatedExactly (is32Bit : Bool) (sections : List Section32)
    (source : List RelocationInfo) (final : RunState) : Prop where
  processed : final.processed = walked (isSubtractor is32Bit) false 0 source
  sectionProcessed : final.sectionProcessed =
    if is32Bit = true ∧ source = [] then sectionEntries 0 sections else []
  target : final.target = ((final.processed.map Prod.snd).filter (isUnsigned is32Bit)).map toLocal
  displacements : ∀ patch ∈ final.patches, patch.1.Exact patch.2

end Expected

section Walk
variable {is32Bit : Bool} {pairs : RelocationInfo → Bool}

theorem takesNext_of_isSubtractor {relocation : RelocationInfo}
    (subtractor : isSubtractor is32Bit relocation = true) : takesNext is32Bit relocation = true := by
  rw [isSubtractor, Bool.and_eq_true, Bool.not_eq_true', beq_iff_eq] at subtractor
  obtain ⟨rfl, type⟩ := subtractor
  have fields : (relocationFields false relocation).type = machX8664RelocSubtractor := by
    rw [relocationFields, if_neg (fun both => Bool.false_ne_true both.1), type]
  rw [takesNext, fields]
  split
  · rfl
  · rfl

variable {index : Nat}

theorem index_le_of_mem_walked {skip : Bool} {list : List RelocationInfo}
    {entry : Nat × RelocationInfo} (member : entry ∈ walked pairs skip index list) :
    index ≤ entry.1 := by
  induction list generalizing skip index with
  | nil => cases member
  | cons relocation rest ih =>
    cases skip with
    | true => exact Nat.le_of_succ_le (ih member)
    | false =>
      rw [walked] at member
      split at member
      · exact Nat.le_of_succ_le (ih member)
      · rw [mem_cons] at member
        rcases member with rfl | later
        · exact le_refl _
        · exact Nat.le_of_succ_le (ih later)

variable {rest : List RelocationInfo}

theorem walked_skip_ne {next : RelocationInfo} {others : List (Nat × RelocationInfo)} :
    walked pairs true index (next :: rest) ≠ (index, next) :: others := by
  intro same
  have member : (index, next) ∈ walked pairs true index (next :: rest) := by
    rw [same]
    exact mem_cons_self ..
  exact absurd (index_le_of_mem_walked (show (index, next) ∈ walked pairs false (index + 1) rest
    from member)) (Nat.not_succ_le_self index)

theorem lost_iff (ih : ∀ {skip : Bool} {index : Nat},
      walked (takesNext is32Bit) skip index rest = walked (isSubtractor is32Bit) skip index rest ↔
        NothingLost is32Bit skip rest) :
    walked (takesNext is32Bit) true index rest = walked (isSubtractor is32Bit) false index rest ↔
      (true = true → false = false → ∀ next ∈ rest.head?, isAbsolute next = true) ∧
        NothingLost is32Bit false rest := by
  cases rest with
  | nil => exact ⟨fun _ => ⟨fun _ _ next member => (nomatch member), trivial⟩, fun _ => rfl⟩
  | cons next rest =>
    by_cases absolute : isAbsolute next = true
    · have skipped : walked (takesNext is32Bit) true index (next :: rest) =
          walked (takesNext is32Bit) false index (next :: rest) := by
        rw [walked, walked, if_pos absolute]
      rw [skipped, ih]
      constructor
      · intro others
        refine ⟨?_, others⟩
        intro _ _ entry member
        cases member
        exact absolute
      · exact fun both => both.2
    · constructor
      · intro same
        rw [walked.eq_3, if_neg absolute] at same
        exact absurd same walked_skip_ne
      · intro both
        exact absurd (both.1 rfl rfl next rfl) absolute

theorem walked_eq_iff {skip : Bool} {index : Nat} {list : List RelocationInfo} :
    walked (takesNext is32Bit) skip index list = walked (isSubtractor is32Bit) skip index list ↔
      NothingLost is32Bit skip list := by
  induction list generalizing skip index with
  | nil => exact ⟨fun _ => trivial, fun _ => by cases skip <;> rfl⟩
  | cons relocation rest ih =>
    cases skip with
    | true => exact ih
    | false =>
      rw [walked, walked, NothingLost]
      by_cases absolute : isAbsolute relocation = true
      · rw [if_pos absolute, if_pos absolute, if_pos absolute]
        exact ih
      · rw [if_neg absolute, if_neg absolute, if_neg absolute, List.cons.injEq, and_iff_right rfl]
        cases subtractor : isSubtractor is32Bit relocation with
        | true =>
          rw [takesNext_of_isSubtractor subtractor, ih]
          exact ⟨fun rest => ⟨fun _ none => (nomatch none), rest⟩, fun both => both.2⟩
        | false =>
          cases taken : takesNext is32Bit relocation with
          | false =>
            rw [ih]
            exact ⟨fun rest => ⟨fun some => (nomatch some), rest⟩, fun both => both.2⟩
          | true => exact lost_iff ih

end Walk

section Run
variable {Name : Type} {view : LinkView Name} {loadAddress relocationBase : BitVec 64}

theorem relocated_exact {relocation : RelocationInfo} {state : RunState} {done : Relocated}
    (spec : RelocatedSpec view relocation done)
    (exact : ∀ patch ∈ state.patches, patch.1.Exact patch.2) :
    ∀ patch ∈ (state.relocated done).patches, patch.1.Exact patch.2 := by
  intro patch member
  rw [RunState.relocated, mem_append, mem_map] at member
  rcases member with earlier | ⟨displacement, here, rfl⟩
  · exact exact patch earlier
  · exact spec.exact displacement (Option.mem_toList.mp here)

structure ListRun (is32Bit : Bool) (entries : List (Nat × RelocationInfo)) (state final : RunState) :
    Prop where
  processed : final.processed = state.processed ++ entries
  target : final.target =
    state.target ++ ((entries.map Prod.snd).filter (isUnsigned is32Bit)).map toLocal
  sectionProcessed : final.sectionProcessed = state.sectionProcessed
  displacements : ∀ patch ∈ final.patches, patch.1.Exact patch.2

variable {state final : RunState} {list : List RelocationInfo}

theorem relocateList_spec {skip : Bool} {index : Nat}
    (run : relocateList view loadAddress relocationBase skip index list state = some final)
    (exact : ∀ patch ∈ state.patches, patch.1.Exact patch.2) :
    ListRun view.is32Bit (walked (takesNext view.is32Bit) skip index list) state final := by
  induction list generalizing skip index state with
  | nil =>
    have same : state = final := by
      cases skip <;> exact Option.some.inj run
    subst same
    have none : walked (takesNext view.is32Bit) skip index [] = [] := by
      cases skip <;> rfl
    rw [none]
    exact ⟨(append_nil _).symm, (append_nil _).symm, rfl, exact⟩
  | cons relocation rest ih =>
    cases skip with
    | true => exact ih run exact
    | false =>
      rw [relocateList] at run
      rw [walked]
      split at run
      · rename_i absolute
        rw [if_pos absolute]
        exact ih run exact
      · rename_i concrete
        rw [if_neg concrete]
        split at run
        · cases run
        · rename_i done relocated
          have spec := internalRelocateRelocation_spec relocated
          have later := ih run (relocated_exact spec exact)
          rw [spec.isPair] at later
          refine ⟨?_, ?_, later.sectionProcessed, later.displacements⟩
          · rw [later.processed]
            exact append_assoc ..
          · rw [later.target, map_cons, filter_cons]
            show (if done.preserved = true then _ else _) ++ _ = _
            rw [spec.preserved]
            cases isUnsigned view.is32Bit relocation with
            | true => exact append_assoc ..
            | false => rfl

structure SectionRun (entries : List (Nat × Nat × RelocationInfo)) (state final : RunState) :
    Prop where
  sectionProcessed : final.sectionProcessed = state.sectionProcessed ++ entries
  processed : final.processed = state.processed
  target : final.target = state.target
  displacements : ∀ patch ∈ final.patches, patch.1.Exact patch.2

theorem relocateSection_spec {number index : Nat} {address : BitVec 64}
    (run : relocateSection view loadAddress relocationBase number address index list state =
      some final) (exact : ∀ patch ∈ state.patches, patch.1.Exact patch.2) :
    SectionRun ((list.zipIdx index).map fun (relocation, index) => (number, index, relocation))
      state final := by
  induction list generalizing index state with
  | nil =>
    cases run
    exact ⟨(append_nil _).symm, rfl, rfl, exact⟩
  | cons relocation rest ih =>
    rw [relocateSection] at run
    split at run
    · cases run
    · rename_i done relocated
      have spec := internalRelocateRelocation_spec relocated
      have later := ih run (relocated_exact spec exact)
      refine ⟨?_, later.processed, later.target, later.displacements⟩
      rw [later.sectionProcessed, zipIdx_cons, map_cons]
      exact append_assoc ..

theorem relocateSections_spec {number : Nat} {sections : List Section32}
    (run : relocateSections view loadAddress relocationBase number sections state = some final)
    (exact : ∀ patch ∈ state.patches, patch.1.Exact patch.2) :
    SectionRun (sectionEntries number sections) state final := by
  induction sections generalizing number state with
  | nil =>
    cases run
    exact ⟨(append_nil _).symm, rfl, rfl, exact⟩
  | cons item rest ih =>
    rw [relocateSections] at run
    split at run
    · cases run
    · rename_i middle first
      have one := relocateSection_spec first exact
      have later := ih run one.displacements
      refine ⟨?_, later.processed.trans one.processed, later.target.trans one.target,
        later.displacements⟩
      rw [later.sectionProcessed, one.sectionProcessed, append_assoc]
      rfl

end Run

/-- An accepted list of relocations is processed as it should be exactly if none of them is
taken by another that is not a subtractor. -/
theorem relocations_relocated_exactly_iff {Name : Type} (view : LinkView Name)
    (loadAddress relocationBase : BitVec 64) (sections : List Section32)
    (source : List RelocationInfo) (memory : Memory) (final : RunState)
    (accepted : internalRelocateAndCopyRelocations view loadAddress relocationBase sections source
      memory = some final) :
    RelocatedExactly view.is32Bit sections source final ↔ NothingLost view.is32Bit false source := by
  unfold internalRelocateAndCopyRelocations at accepted
  simp only at accepted
  have clean : ∀ patch ∈ ([] : List (Displacement × Memory)), patch.1.Exact patch.2 :=
    fun patch member => nomatch member
  split at accepted
  · rename_i bySections
    have run := relocateSections_spec accepted clean
    obtain ⟨narrow, rfl⟩ := bySections
    constructor
    · intro _
      trivial
    · intro _
      refine ⟨run.processed, ?_, ?_, run.displacements⟩
      · rw [run.sectionProcessed, if_pos ⟨narrow, rfl⟩]
        rfl
      · rw [run.target, run.processed]
        rfl
  · rename_i byList
    have run := relocateList_spec accepted clean
    rw [← @walked_eq_iff view.is32Bit false 0 source]
    have processed : final.processed = walked (takesNext view.is32Bit) false 0 source :=
      run.processed
    constructor
    · intro exactly
      rw [← processed, exactly.processed]
    · intro same
      refine ⟨processed.trans same, ?_, ?_, run.displacements⟩
      · rw [run.sectionProcessed, if_neg byList]
      · rw [processed]
        exact run.target

def sampleView : LinkView Unit where
  is32Bit := false
  filePointerByAddress := fun _ address => some (address.toNat, 16)
  symbolByIndex := fun _ _ => some ((), 0x2000)
  sectionByIndex := fun _ _ => none
  vtableByName := fun _ => none
  nameIsVtable := fun _ => false
  nameIsPureVirtual := fun _ => false

/-- A call of the symbol and a pointer to it. -/
theorem relocations_relocated_exactly_sample :
    ∃ final, internalRelocateAndCopyRelocations sampleView 0x1000 0 []
        [⟨0, 0, true, 2, true, machX8664RelocBranch⟩, ⟨8, 0, false, 3, true, machX8664RelocUnsigned⟩]
        (fun _ => 0) = some final ∧
      RelocatedExactly false []
        [⟨0, 0, true, 2, true, machX8664RelocBranch⟩, ⟨8, 0, false, 3, true, machX8664RelocUnsigned⟩]
        final := by
  obtain ⟨final, accepted⟩ := Option.isSome_iff_exists.mp
    (show (internalRelocateAndCopyRelocations sampleView 0x1000 0 []
        [⟨0, 0, true, 2, true, machX8664RelocBranch⟩, ⟨8, 0, false, 3, true, machX8664RelocUnsigned⟩]
        (fun _ => 0)).isSome = true by decide)
  refine ⟨final, accepted, ?_⟩
  apply (relocations_relocated_exactly_iff sampleView 0x1000 0 [] _ _ final accepted).mpr
  refine ⟨fun taken => absurd taken (by decide), ?_⟩
  exact ⟨fun taken => absurd taken (by decide), trivial⟩

/-- A load through the table of pointers takes the call behind it: the call is not relocated. -/
theorem relocation_behind_got_lost :
    ∃ final, internalRelocateAndCopyRelocations sampleView 0x1000 0 []
        [⟨0, 0, true, 2, true, machX8664RelocGotLoad⟩, ⟨8, 0, true, 2, true, machX8664RelocBranch⟩]
        (fun _ => 0) = some final ∧
      ¬RelocatedExactly false []
        [⟨0, 0, true, 2, true, machX8664RelocGotLoad⟩, ⟨8, 0, true, 2, true, machX8664RelocBranch⟩]
        final := by
  have log : (internalRelocateAndCopyRelocations sampleView 0x1000 0 []
      [⟨0, 0, true, 2, true, machX8664RelocGotLoad⟩, ⟨8, 0, true, 2, true, machX8664RelocBranch⟩]
      (fun _ => 0)).map RunState.processed =
        some [(0, ⟨0, 0, true, 2, true, machX8664RelocGotLoad⟩)] := by decide
  rw [Option.map_eq_some_iff] at log
  obtain ⟨final, accepted, processed⟩ := log
  refine ⟨final, accepted, ?_⟩
  intro exactly
  have both := exactly.processed
  rw [processed] at both
  exact absurd both (by decide)

end OpenCore.RelocationRun
