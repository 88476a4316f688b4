import OpenCore.VtablePatch
import OpenCore.VtableSymbols

/-!
The two phases over a vtable of a kext. `InternalInitializeVtablePatchData` finds its end and the
symbols of its zero entries, and `InternalInitializeVtableByEntriesAndRelocations` goes over the
entries again, together with those of the super vtable, and takes the symbols one after the other.
-/

namespace OpenCore.VtablePhases

open Base KextSymbols VtablePatch VtableSymbols List

section Source

structure KextLinks where
  context : KextContext
  vtable : VtableName
  /-- `InternalOcGetSymbolValue` for the C++ symbols: a name and a value. -/
  ocGetSymbolValue : Nat → Option (AsciiString × Nat)

structure Visit where
  index : Nat
  entryValue : Nat
  taken : Option (Option Nat)

inductive Ending where
  | done (entries : List VtableEntry) (symbols : Nat → NList)
  | failed
  | outside

def Ending.cons (entry : VtableEntry) : Ending → Ending
  | .done entries symbols => .done (entry :: entries) symbols
  | ending => ending

/-- The loop of `InternalInitializeVtableByEntriesAndRelocations` over the entries of the super
vtable from an index on, with the kext's symbols as they are. -/
def initializeEntries (links : KextLinks) (vtableData : List Nat) (solveSymbols : List (Option Nat))
    (numSolveSymbols : Nat) :
    List VtableEntry → Nat → Nat → (Nat → NList) → List Visit × Ending
  | [], _, _, symbols => ([], .done [] symbols)
  | parent :: rest, index, solveSymbolIndex, symbols =>
    match vtableData[index + vtableHeaderLen]? with
    | none => ([], .outside)
    | some entryValue =>
      if entryValue ≠ 0 then
        let entry : VtableEntry := match links.ocGetSymbolValue entryValue with
          | some (name, value) => ⟨some name, value⟩
          | none => ⟨none, 0⟩
        let later := initializeEntries links vtableData solveSymbols numSolveSymbols rest
          (index + 1) solveSymbolIndex symbols
        (⟨index, entryValue, none⟩ :: later.1, later.2.cons entry)
      else if solveSymbolIndex ≥ numSolveSymbols then ([], .done [] symbols)
      else
        match solveSymbols[solveSymbolIndex]? with
        | none => ([], .outside)
        | some none =>
          let later := initializeEntries links vtableData solveSymbols numSolveSymbols rest
            (index + 1) (solveSymbolIndex + 1) symbols
          (⟨index, entryValue, some none⟩ :: later.1, later.2.cons ⟨none, 0⟩)
        | some (some place) =>
          match internalPatchVtableSymbol links.context parent links.vtable place
              (symbols place) with
          | .failed => ([⟨index, entryValue, some (some place)⟩], .failed)
          | .kept =>
            let later := initializeEntries links vtableData solveSymbols numSolveSymbols rest
              (index + 1) (solveSymbolIndex + 1) symbols
            (⟨index, entryValue, some (some place)⟩ :: later.1,
              later.2.cons ⟨some (symbols place).name, (symbols place).value⟩)
          | .replaced symbol =>
            let later := initializeEntries links vtableData solveSymbols numSolveSymbols rest
              (index + 1) (solveSymbolIndex + 1) (Function.update symbols place symbol)
            (⟨index, entryValue, some (some place)⟩ :: later.1,
              later.2.cons ⟨some symbol.name, symbol.value⟩)

end Source

section Agreement

variable {view : MachoView Nat} {vtable maxSymbols : Nat}

def slotAddress (view : MachoView Nat) (vtable index : Nat) : Nat :=
  view.value vtable + (index + vtableHeaderLen) * view.entrySize

inductive SolveCons (view : MachoView Nat) (vtable maxSymbols entry : Nat) (rest : List Nat)
    (index symIndex : Nat) : Nat → List (Option Nat) → Prop where
  | filled {ended : Nat} {symbols : List (Option Nat)} (value : entry ≠ 0)
      (found : view.solve vtable maxSymbols rest (index + 1 + vtableHeaderLen) symIndex =
        (symbols, some ended)) :
      SolveCons view vtable maxSymbols entry rest index symIndex ended symbols
  | ends (zero : entry = 0) (unmoved : view.relocated (slotAddress view vtable index) = none) :
      SolveCons view vtable maxSymbols entry rest index symIndex (index + vtableHeaderLen) []
  | slot {ended : Nat} {symbol : Option Nat} {symbols : List (Option Nat)} (zero : entry = 0)
      (relocated : view.relocated (slotAddress view vtable index) = some symbol)
      (found : view.solve vtable maxSymbols rest (index + 1 + vtableHeaderLen) (symIndex + 1) =
        (symbols, some ended)) :
      SolveCons view vtable maxSymbols entry rest index symIndex ended (symbol :: symbols)

variable {symbols : List (Option Nat)}

theorem solve_cons {entry : Nat} {rest : List Nat} {index symIndex ended : Nat}
    (first : view.solve vtable maxSymbols (entry :: rest) (index + vtableHeaderLen) symIndex =
      (symbols, some ended)) :
    SolveCons view vtable maxSymbols entry rest index symIndex ended symbols := by
  unfold MachoView.solve at first
  rw [Nat.add_right_comm] at first
  by_cases value : entry ≠ 0
  · rw [if_pos value] at first
    exact .filled value first
  · rw [if_neg value] at first
    rw [ne_eq, not_not] at value
    split at first
    · cases first
    · next fileOffset added =>
        obtain ⟨rfl, _⟩ := baseOverflowAdd_eq_some added
        split at first
        · next unmoved =>
            cases first
            exact .ends value unmoved
        · next symbol relocated =>
            split at first
            · cases first
            · obtain ⟨same, found⟩ := Prod.mk.inj first
              cases same
              exact .slot value relocated (Prod.ext rfl found)

theorem slot_of_drop {entries rest : List Nat} {index entry : Nat}
    (rear : entries.drop (index + vtableHeaderLen) = entry :: rest) :
    entries[index + vtableHeaderLen]? = some entry ∧
      entries.drop (index + 1 + vtableHeaderLen) = rest := by
  constructor
  · rw [← Nat.add_zero (index + vtableHeaderLen), ← getElem?_drop, rear]
    rfl
  · rw [Nat.add_right_comm, ← drop_drop, rear]
    rfl

/-- A visit reads its own entry, and takes the symbol of the relocation at the entry's own address
exactly if the entry is zero. -/
def Visit.Paired (view : MachoView Nat) (vtable : Nat) (entries : List Nat) (visit : Visit) : Prop :=
  entries[visit.index + vtableHeaderLen]? = some visit.entryValue ∧
    visit.taken = if visit.entryValue = 0 then view.relocated (slotAddress view vtable visit.index)
      else none

structure Agrees (view : MachoView Nat) (vtable : Nat) (entries : List Nat) (numEntries index : Nat)
    (super : List VtableEntry) (run : List Visit × Ending) : Prop where
  inside : run.2 ≠ .outside
  order : run.1.map Visit.index = List.range' index run.1.length
  bounded : index + run.1.length ≤ numEntries
  whole : run.2 ≠ .failed → run.1.length = min super.length (numEntries - index)
  paired : ∀ visit ∈ run.1, visit.Paired view vtable entries

theorem cons_ne_outside {entry : VtableEntry} {ending : Ending} :
    ending.cons entry = .outside ↔ ending = .outside := by
  cases ending <;> simp [Ending.cons]

theorem cons_ne_failed {entry : VtableEntry} {ending : Ending} :
    ending.cons entry = .failed ↔ ending = .failed := by
  cases ending <;> simp [Ending.cons]

theorem Agrees.cons {entries : List Nat} {numEntries index : Nat} {parent entry : VtableEntry}
    {super : List VtableEntry} {run : List Visit × Ending} {entryValue : Nat}
    {taken : Option (Option Nat)}
    (agrees : Agrees view vtable entries numEntries (index + 1) super run)
    (paired : Visit.Paired view vtable entries ⟨index, entryValue, taken⟩) :
    Agrees view vtable entries numEntries index (parent :: super)
      (⟨index, entryValue, taken⟩ :: run.1, run.2.cons entry) where
  inside same := agrees.inside (cons_ne_outside.mp same)
  order := by rw [map_cons, agrees.order, length_cons, range'_succ]
  bounded := by
    have bounded := agrees.bounded
    rw [length_cons]
    omega
  whole ended := by
    have whole := agrees.whole fun same => ended (cons_ne_failed.mpr same)
    have bounded := agrees.bounded
    rw [length_cons, length_cons, whole]
    omega
  paired visit member := by
    rcases mem_cons.mp member with rfl | later
    · exact paired
    · exact agrees.paired visit later

variable {entries : List Nat}

theorem solve_le {index symIndex ended : Nat}
    (first : view.solve vtable maxSymbols entries (index + vtableHeaderLen) symIndex =
      (symbols, some ended)) : index + vtableHeaderLen ≤ ended := by
  induction entries generalizing index symIndex symbols with
  | nil => cases first
  | cons entry rest ih =>
    cases solve_cons first with
    | filled value found =>
      have later := ih found
      omega
    | ends zero unmoved => exact le_refl _
    | slot zero relocated found =>
      have later := ih found
      omega

variable {super : List VtableEntry} {numEntries index : Nat}

theorem Agrees.stop {symbols : Nat → NList} (within : index ≤ numEntries)
    (ends : min super.length (numEntries - index) = 0) :
    Agrees view vtable entries numEntries index super ([], .done [] symbols) where
  inside := nofun
  order := rfl
  bounded := within
  whole _ := ends.symm
  paired := nofun

variable {parent : VtableEntry}

theorem Agrees.fails {visit : Visit} (here : visit.index = index)
    (within : index + 1 ≤ numEntries) (paired : visit.Paired view vtable entries) :
    Agrees view vtable entries numEntries index (parent :: super) ([visit], .failed) where
  inside := nofun
  order := by
    rw [map_singleton, here]
    rfl
  bounded := within
  whole still := absurd rfl still
  paired other member := by
    rw [mem_singleton.mp member]
    exact paired

theorem initializeEntries_slot (links : KextLinks)
    {taken later : List (Option Nat)} {symbol : Option Nat} {symbols : Nat → NList}
    (here : entries[index + vtableHeaderLen]? = some 0) (within : index + 1 ≤ numEntries)
    (relocated : view.relocated (slotAddress view vtable index) = some symbol)
    (agrees : ∀ symbols, Agrees view vtable entries numEntries (index + 1) super
      (initializeEntries links entries (taken ++ symbol :: later)
        (taken ++ symbol :: later).length super (index + 1) (taken.length + 1) symbols)) :
    Agrees view vtable entries numEntries index (parent :: super)
      (initializeEntries links entries (taken ++ symbol :: later)
        (taken ++ symbol :: later).length (parent :: super) index taken.length symbols) := by
  have unfilled : ¬taken.length ≥ (taken ++ symbol :: later).length := by
    rw [length_append, length_cons]
    omega
  have next : (taken ++ symbol :: later)[taken.length]? = some symbol := by
    rw [getElem?_append_right (le_refl _), Nat.sub_self]
    rfl
  have paired : Visit.Paired view vtable entries ⟨index, 0, some symbol⟩ := by
    refine ⟨here, ?_⟩
    rw [if_pos rfl]
    exact relocated.symm
  unfold initializeEntries
  rw [here]
  dsimp only
  rw [if_neg (not_not_intro rfl), if_neg unfilled, next]
  cases symbol with
  | none => exact (agrees symbols).cons paired
  | some place =>
    dsimp only
    split
    · exact Agrees.fails rfl within paired
    · exact (agrees symbols).cons paired
    · exact (agrees _).cons paired

/-- Both phases stand at the same entry; the symbols taken so far are those of the zero entries
in front of it, and what the first phase adds from there on is what the second will take. -/
theorem initializeEntries_agrees (links : KextLinks) {entries rest : List Nat}
    {taken later : List (Option Nat)} {index ended symIndex : Nat}
    (rear : entries.drop (index + vtableHeaderLen) = rest)
    (first : view.solve vtable maxSymbols rest (index + vtableHeaderLen) symIndex =
      (later, some ended))
    (super : List VtableEntry) (symbols : Nat → NList) :
    Agrees view vtable entries (ended - vtableHeaderLen) index super
      (initializeEntries links entries (taken ++ later) (taken ++ later).length super index
        taken.length symbols) := by
  induction rest generalizing index symIndex taken later super symbols with
  | nil => cases first
  | cons entry rest ih =>
    -- Both phases look at the same entry, and only then go on.
    obtain ⟨here, behind⟩ := slot_of_drop rear
    have within : index ≤ ended - vtableHeaderLen := Nat.le_sub_of_add_le (solve_le first)
    cases super with
    | nil => exact Agrees.stop within (Nat.zero_min _)
    | cons parent super =>
      cases solve_cons first with
      | filled value found =>
        unfold initializeEntries
        rw [here]
        dsimp only
        rw [if_pos value]
        exact (ih behind found super symbols).cons ⟨here, (if_neg value).symm⟩
      | ends zero unmoved =>
        -- No symbol is left for a zero entry without a relocation.
        unfold initializeEntries
        rw [here, zero, append_nil]
        dsimp only
        rw [if_neg (not_not_intro rfl), if_pos (le_refl _)]
        refine Agrees.stop within ?_
        omega
      | @slot _ symbol later zero relocated found =>
        rw [zero] at here
        refine initializeEntries_slot links here ?_ relocated fun symbols => ?_
        · exact Nat.le_sub_of_add_le (solve_le found)
        · have agrees := @ih (taken ++ [symbol]) later (index + 1) _ behind found super symbols
          have count : (taken ++ [symbol]).length = taken.length + 1 := length_append
          rw [append_assoc, singleton_append, count] at agrees
          exact agrees

def zeroSlots (entries : List Nat) (index count : Nat) : List Nat :=
  (List.range' index count).filter fun index => entries[index + vtableHeaderLen]? = some 0

theorem zeroSlots_cons {entry index count : Nat}
    (here : entries[index + vtableHeaderLen]? = some entry) :
    zeroSlots entries index (count + 1) =
      (if entry = 0 then [index] else []) ++ zeroSlots entries (index + 1) count := by
  rw [zeroSlots, zeroSlots, range'_succ, filter_cons, here]
  by_cases zero : entry = 0
  · simp [zero]
  · simp [zero]

/-- What the first phase fills in are the symbols of the relocations at the zero entries. -/
theorem solve_zeroSlots {entries rest : List Nat} {symbols : List (Option Nat)}
    {index ended symIndex : Nat} (rear : entries.drop (index + vtableHeaderLen) = rest)
    (first : view.solve vtable maxSymbols rest (index + vtableHeaderLen) symIndex =
      (symbols, some ended)) :
    symbols.map some = (zeroSlots entries index (ended - vtableHeaderLen - index)).map fun index =>
      view.relocated (slotAddress view vtable index) := by
  induction rest generalizing index symIndex symbols with
  | nil => cases first
  | cons entry rest ih =>
    obtain ⟨here, behind⟩ := slot_of_drop rear
    have count : ∀ {symbols symIndex}, view.solve vtable maxSymbols rest
        (index + 1 + vtableHeaderLen) symIndex = (symbols, some ended) →
        ended - vtableHeaderLen - index = ended - vtableHeaderLen - (index + 1) + 1 := by
      intro symbols symIndex found
      have above := solve_le found
      omega
    cases solve_cons first with
    | filled value found =>
      rw [count found, zeroSlots_cons here, if_neg value, nil_append]
      exact ih behind found
    | ends zero unmoved =>
      rw [Nat.add_sub_cancel, Nat.sub_self]
      rfl
    | slot zero relocated found =>
      rw [count found, zeroSlots_cons here, if_pos zero, map_cons, ih behind found]
      exact congrArg (· :: _) relocated.symm

/-- The first phase counts at least the entries that the second one visits, and every zero entry
that is visited takes the symbol of the relocation at its own address, from the symbols that the
first phase has filled in. -/
theorem phases_agree (view : MachoView Nat) (vtable maxSize place left numEntries numSymbols : Nat)
    (entries : List Nat) (data : view.vtableData vtable = some (true, entries))
    (first : (view.internalInitializeVtablePatchData vtable maxSize place).2 =
      some (left, numEntries, numSymbols)) :
    ∃ solveSymbols, view.solve vtable (maxSize / view.nlistSize) (entries.drop vtableHeaderLen)
          vtableHeaderLen 0 = (solveSymbols, some (numEntries + vtableHeaderLen)) ∧
        solveSymbols.length = numSymbols ∧
        solveSymbols.map some = (zeroSlots entries 0 numEntries).map (fun index =>
          view.relocated (slotAddress view vtable index)) ∧
      ∀ (links : KextLinks) (super : List VtableEntry) (symbols : Nat → NList),
        Agrees view vtable entries numEntries 0 super
          (initializeEntries links entries solveSymbols numSymbols super 0 0 symbols) := by
  rw [MachoView.internalInitializeVtablePatchData, data] at first
  simp only [not_true_eq_false, if_false, Option.map_eq_some_iff, Prod.mk.injEq] at first
  obtain ⟨ended, stop, -, counted, filled⟩ := first
  obtain ⟨solveSymbols, same⟩ : ∃ symbols, (view.solve vtable (maxSize / view.nlistSize)
    (entries.drop vtableHeaderLen) vtableHeaderLen 0).1 = symbols := ⟨_, rfl⟩
  rw [same] at filled
  have found : view.solve vtable (maxSize / view.nlistSize) (entries.drop vtableHeaderLen)
    vtableHeaderLen 0 = (solveSymbols, some ended) := Prod.ext same stop
  have above := solve_le found
  have whole : ended = numEntries + vtableHeaderLen := by omega
  subst whole
  have rear : entries.drop (0 + vtableHeaderLen) = entries.drop vtableHeaderLen := by
    rw [Nat.zero_add]
  have slots := @solve_zeroSlots view vtable _ entries _ solveSymbols 0 _ _ rear found
  rw [Nat.add_sub_cancel, Nat.sub_zero] at slots
  refine ⟨solveSymbols, found, filled, slots, fun links super symbols => ?_⟩
  have agrees := @initializeEntries_agrees view vtable _ links entries _ [] solveSymbols 0 _ _ rear
    found super symbols
  rw [nil_append, filled, Nat.add_sub_cancel] at agrees
  exact agrees

def mixedVtable : MachoView Nat where
  is32Bit := false
  symbols := [0, 1]
  isStab := fun _ => false
  isSmcp := fun _ => false
  value := fun _ => 0x1000
  vtableSymbols := fun _ => none
  vtableData := fun _ => some (true, [0, 0, 0x500, 0, 0x600, 0])
  relocated := fun offset => if offset = 0x1018 then some (some 1) else none

theorem phases_agree_mixedVtable :
    ∃ solveSymbols, mixedVtable.solve 0 (64 / mixedVtable.nlistSize) [0x500, 0, 0x600, 0]
          vtableHeaderLen 0 = (solveSymbols, some (3 + vtableHeaderLen)) ∧
        solveSymbols.length = 1 ∧
        solveSymbols.map some = (zeroSlots [0, 0, 0x500, 0, 0x600, 0] 0 3).map (fun index =>
          mixedVtable.relocated (slotAddress mixedVtable 0 index)) ∧
      ∀ (links : KextLinks) (super : List VtableEntry) (symbols : Nat → NList),
        Agrees mixedVtable 0 [0, 0, 0x500, 0, 0x600, 0] 3 0 super
          (initializeEntries links [0, 0, 0x500, 0, 0x600, 0] solveSymbols 1 super 0 0 symbols) :=
  phases_agree mixedVtable 0 64 0 48 3 1 [0, 0, 0x500, 0, 0x600, 0] rfl (by decide)

end Agreement

end OpenCore.VtablePhases
