import OpenCore.Base

/-!
How the vtables that a kext's super metaclass pointers stand for are collected in the link
buffer, before they are patched: a record for each pointer, with a header and the symbols
that the vtables refer to. What remains of the buffer is reduced by the symbols alone, and
by the size that they have in a symbol table.
-/

namespace OpenCore.VtablePatch

open Base

section Source

/-- `sizeof (OC_VTABLE_PATCH_ENTRY)`, whose fields are an `Smcp`, the two vtables, each with
its data, and two counts. -/
def patchEntrySize : Nat := 48

def pointerSize : Nat := 8

def vtableHeaderLen : Nat := 2

structure MachoView (Symbol : Type) where
  is32Bit : Bool
  /-- `MachoGetSymbolByIndex`, up to the first index without a symbol. -/
  symbols : List Symbol
  isStab : Symbol → Bool
  isSmcp : Symbol → Bool
  value : Symbol → Nat
  /-- `MachoGetVtableSymbolsFromSmcp`. -/
  vtableSymbols : Symbol → Option (Symbol × Symbol)
  /-- `MachoSymbolGetFileOffset`: whether the data is aligned, and its entries. -/
  vtableData : Symbol → Option (Bool × List Nat)
  /-- `MachoGetSymbolByExternRelocationOffset`; the symbol itself may be missing. -/
  relocated : Nat → Option (Option Symbol)

variable {Symbol : Type} (view : MachoView Symbol)

def MachoView.nlistSize : Nat := if view.is32Bit then 12 else 16
def MachoView.entrySize : Nat := if view.is32Bit then 4 else 8

/-- What is done with the link buffer: a write of so many bytes, or a check of how much
remains from a place on. -/
inductive Event where
  | write (place size : Nat)
  | check (place remaining : Nat)
  deriving DecidableEq

/-- The loop over a vtable's entries from an offset on: the symbols it puts into
`SolveSymbols`, and where it ends. -/
def MachoView.solve (vtable : Symbol) (maxSymbols : Nat) :
    List Nat → Nat → Nat → List (Option Symbol) × Option Nat
  | [], _, _ => ([], none)
  | entry :: rest, entryOffset, symIndex =>
    if entry ≠ 0 then solve vtable maxSymbols rest (entryOffset + 1) symIndex
    else
      match baseOverflowAdd u64 (view.value vtable) (entryOffset * view.entrySize) with
      | none => ([], none)
      | some fileOffset =>
        match view.relocated fileOffset with
        | none => ([], some entryOffset)
        | some symbol =>
          if symIndex ≥ maxSymbols then ([], none)
          else
            let (symbols, ended) := solve vtable maxSymbols rest (entryOffset + 1) (symIndex + 1)
            (symbol :: symbols, ended)

/-- `InternalInitializeVtablePatchData`: what remains then, the number of entries and that of
symbols, which are written from a place on. -/
def MachoView.internalInitializeVtablePatchData (vtable : Symbol) (maxSize place : Nat) :
    List Event × Option (Nat × Nat × Nat) :=
  match view.vtableData vtable with
  | none => ([], none)
  | some (aligned, entries) =>
    if ¬aligned then ([], none)
    else
      let (symbols, ended) := view.solve vtable (maxSize / view.nlistSize)
        (entries.drop vtableHeaderLen) vtableHeaderLen 0
      (.check place maxSize :: (List.range symbols.length).map fun symIndex =>
          .write (place + pointerSize * symIndex) pointerSize,
        ended.map fun entryOffset =>
          (maxSize - symbols.length * view.nlistSize, entryOffset - vtableHeaderLen,
            symbols.length))

/-- The record of a super metaclass pointer is written at a place: what remains then, the
number of entries and the place behind. -/
def MachoView.record (smcp : Symbol) (maxSize place : Nat) : List Event × Option (Nat × Nat × Nat) :=
  if maxSize < patchEntrySize then ([.check place maxSize], none)
  else
    match view.vtableSymbols smcp with
    | none => ([.check place maxSize], none)
    | some (vtable, metaVtable) =>
      let header := [.check place maxSize, .write (place + 8) 8, .write (place + 24) 8,
        .write place 8]
      let symbols := place + patchEntrySize
      match view.internalInitializeVtablePatchData vtable maxSize symbols with
      | (events, none) => (header ++ events, none)
      | (events, some (maxSize, numEntries, metaSymsIndex)) =>
        let first := header ++ events ++ [.write (place + 16) 8, .write (place + 44) 4]
        match view.internalInitializeVtablePatchData metaVtable maxSize
            (symbols + pointerSize * metaSymsIndex) with
        | (events, none) => (first ++ events, none)
        | (events, some (maxSize, numMetaEntries, numSolveSymbols)) =>
          (first ++ events ++ [.write (place + 32) 8, .write (place + 40) 4],
            some (maxSize, numEntries + numMetaEntries,
              symbols + pointerSize * (numSolveSymbols + metaSymsIndex)))

/-- The loop of `InternalPatchByVtables` over the symbols, with how much remains and the place
of the next record: the number of tables and that of entries. -/
def MachoView.collect : List Symbol → Nat → Nat → Nat → Nat → List Event × Option (Nat × Nat)
  | [], _, _, numTables, numEntries => ([], some (numTables, numEntries))
  | symbol :: rest, maxSize, place, numTables, numEntries =>
    if ¬view.isStab symbol ∧ view.isSmcp symbol then
      match view.record symbol maxSize place with
      | (events, none) => (events, none)
      | (events, some (maxSize, more, next)) =>
        let (others, ended) := collect rest maxSize next (numTables + 1) (numEntries + more)
        (events ++ others, ended)
    else collect rest maxSize place numTables numEntries

/-- What `InternalPatchByVtables` does with a link buffer to collect the vtables. -/
def MachoView.internalPatchByVtables (linkBufferSize : Nat) : List Event × Option (Nat × Nat) :=
  view.collect view.symbols linkBufferSize 0 0 0

end Source

section Charging

/-! A write is inside the buffer and a check sees exactly what lies behind its place. -/

def Event.Within (linkBufferSize : Nat) : Event → Prop
  | .write place size => place + size ≤ linkBufferSize
  | .check place remaining => remaining + place = linkBufferSize

instance (linkBufferSize : Nat) : DecidablePred (Event.Within linkBufferSize)
  | .write place size => inferInstanceAs (Decidable (place + size ≤ linkBufferSize))
  | .check place remaining => inferInstanceAs (Decidable (remaining + place = linkBufferSize))

variable {Symbol : Type} (view : MachoView Symbol)

def MachoView.Accounted (linkBufferSize : Nat) : Prop :=
  ∀ event ∈ (view.internalPatchByVtables linkBufferSize).1, event.Within linkBufferSize

def MachoView.collected (symbol : Symbol) : Bool := !view.isStab symbol && view.isSmcp symbol

/-- The first pointer is turned down before the data of its vtable is looked into. -/
def MachoView.TurnedDown (linkBufferSize : Nat) (smcp : Symbol) : Prop :=
  linkBufferSize < patchEntrySize ∨ view.vtableSymbols smcp = none ∨
    ∃ vtable metaVtable, view.vtableSymbols smcp = some (vtable, metaVtable) ∧
      ∀ entries, view.vtableData vtable ≠ some (true, entries)

theorem MachoView.record_turned_down (linkBufferSize : Nat) (smcp : Symbol)
    (down : view.TurnedDown linkBufferSize smcp) :
    (view.record smcp linkBufferSize 0).2 = none ∧
      ∀ event ∈ (view.record smcp linkBufferSize 0).1, event.Within linkBufferSize := by
  unfold record
  by_cases small : linkBufferSize < patchEntrySize
  · simp [small, Event.Within]
  · rw [if_neg small]
    rcases down with short | missing | ⟨vtable, metaVtable, found, unread⟩
    · exact absurd short small
    · simp [missing, Event.Within]
    · have empty : view.internalInitializeVtablePatchData vtable linkBufferSize
          (0 + patchEntrySize) = ([], none) := by
        unfold internalInitializeVtablePatchData
        rcases data : view.vtableData vtable with _ | ⟨aligned, entries⟩
        · rfl
        · cases aligned with
          | false => rfl
          | true => exact absurd data (unread entries)
      have enough : patchEntrySize ≤ linkBufferSize := Nat.le_of_not_lt small
      rw [found]
      dsimp only
      rw [empty]
      simp [Event.Within, patchEntrySize] at enough ⊢
      omega

theorem MachoView.record_uncharged (linkBufferSize : Nat) (smcp : Symbol)
    (read : ¬view.TurnedDown linkBufferSize smcp) :
    .check patchEntrySize linkBufferSize ∈ (view.record smcp linkBufferSize 0).1 := by
  unfold record
  have enough : ¬linkBufferSize < patchEntrySize := fun small => read (.inl small)
  rw [if_neg enough]
  rcases found : view.vtableSymbols smcp with _ | ⟨vtable, metaVtable⟩
  · exact absurd (.inr (.inl found)) read
  · by_cases unread : ∀ entries, view.vtableData vtable ≠ some (true, entries)
    · exact absurd (.inr (.inr ⟨vtable, metaVtable, found, unread⟩)) read
    · simp only [ne_eq, not_forall, not_not] at unread
      obtain ⟨entries, data⟩ := unread
      have checked : .check patchEntrySize linkBufferSize ∈
          (view.internalInitializeVtablePatchData vtable linkBufferSize
            (0 + patchEntrySize)).1 := by
        simp [internalInitializeVtablePatchData, data]
      dsimp only
      generalize view.internalInitializeVtablePatchData vtable linkBufferSize
        (0 + patchEntrySize) = outcome at checked ⊢
      obtain ⟨events, _ | ⟨maxSize, numEntries, metaSymsIndex⟩⟩ := outcome
      · exact List.mem_append_right _ checked
      · dsimp only
        split <;> simp_all

theorem MachoView.collect_first (symbols : List Symbol) (maxSize place tables entries : Nat) :
    match symbols.find? view.collected with
    | none => (view.collect symbols maxSize place tables entries).1 = []
    | some smcp => ∃ others, (view.collect symbols maxSize place tables entries).1 =
            (view.record smcp maxSize place).1 ++ others ∧
          ((view.record smcp maxSize place).2 = none → others = []) := by
  induction symbols with
  | nil => rfl
  | cons symbol rest ih =>
    by_cases here : view.collected symbol
    · have guard : ¬view.isStab symbol ∧ view.isSmcp symbol := by
        simpa [collected] using here
      rw [List.find?_cons_of_pos here]
      dsimp only [collect]
      rw [if_pos guard]
      rcases view.record symbol maxSize place with ⟨events, _ | ⟨left, more, next⟩⟩
      · exact ⟨[], by simp⟩
      · exact ⟨_, rfl, nofun⟩
    · have guard : ¬(¬view.isStab symbol ∧ view.isSmcp symbol) := by
        simpa [collected] using here
      rw [List.find?_cons_of_neg here]
      dsimp only [collect]
      rw [if_neg guard]
      exact ih

/-- The link buffer is accounted for exactly when no vtable's data is ever looked into. -/
theorem MachoView.internalPatchByVtables_accounted (linkBufferSize : Nat) :
    view.Accounted linkBufferSize ↔
      ∀ smcp, view.symbols.find? view.collected = some smcp →
        view.TurnedDown linkBufferSize smcp := by
  have first := view.collect_first view.symbols linkBufferSize 0 0 0
  unfold Accounted internalPatchByVtables
  rcases found : view.symbols.find? view.collected with _ | smcp
  · rw [found] at first
    simp [first]
  · rw [found] at first
    obtain ⟨others, split, alone⟩ := first
    rw [split]
    constructor
    · intro within other same
      cases same
      by_contra read
      have checked := within _ (List.mem_append_left _
        (view.record_uncharged linkBufferSize smcp read))
      simp [Event.Within, patchEntrySize] at checked
    · intro down
      have ⟨ended, within⟩ := view.record_turned_down linkBufferSize smcp (down smcp rfl)
      rw [alone ended, List.append_nil]
      exact within

instance (linkBufferSize : Nat) : Decidable (view.Accounted linkBufferSize) :=
  inferInstanceAs (Decidable (∀ _ ∈ _, _))

/-- A 64-bit kext whose one class has a vtable with three entries, each filled in by a
relocation that names one undefined symbol. It has four symbols and no `__LINKEDIT`, so that
the link buffer holds four symbols. -/
def oneClass : MachoView (Fin 4) where
  is32Bit := false
  symbols := [0, 1, 2, 3]
  isStab := fun _ => false
  isSmcp := (· == 0)
  value := fun symbol => 0x1000 * symbol
  vtableSymbols := fun smcp => if smcp = 0 then some (1, 2) else none
  vtableData := fun symbol =>
    if symbol = 1 then some (true, [0, 0, 0, 0, 0, 0])
    else if symbol = 2 then some (true, [0, 0, 0]) else none
  relocated := fun offset =>
    if offset ∈ [0x1010, 0x1018, 0x1020] then some (some 3) else none

theorem oneClass_overrun : ¬oneClass.Accounted 64 ∧
    .write 64 8 ∈ (oneClass.internalPatchByVtables 64).1 ∧
    (oneClass.internalPatchByVtables 64).2 = some (1, 3) := by decide

end Charging

end OpenCore.VtablePatch
