import Mathlib.Data.List.Forall2
import OpenCore.SymbolTable

/-!
The layout of a linked symbol table. The symbols that were taken so far fill the table from
both ends, each once and with a gap for those to come, so no walker leaves the table; in
the end the gap is as long as symbols were discarded, and closing it leaves the symbols in
a row.
-/

namespace OpenCore.SymbolLayout

open KextSymbols SymbolTable List

section Lists
variable {placed : List KextSymbol} {walkers : Walkers} {entry : KextSymbol}

def isCxx (entry : KextSymbol) : Bool := machoSymbolNameIsCxx entry.name

def plain (entries : List KextSymbol) : List KextSymbol := entries.filter fun entry => !isCxx entry

def cxx (entries : List KextSymbol) : List KextSymbol := entries.filter isCxx

theorem plain_cxx_length (entries : List KextSymbol) :
    (plain entries).length + (cxx entries).length = entries.length := by
  induction entries with
  | nil => rfl
  | cons entry rest ih =>
    rw [plain, cxx] at ih ⊢
    cases kind : isCxx entry <;> simp only [filter_cons, kind, length_cons] <;>
      simp only [Bool.not_true, Bool.not_false, Bool.false_eq_true, if_true, if_false,
        length_cons] <;> omega

structure Filled (placed : List KextSymbol) (size : Nat) (walkers : Walkers) : Prop where
  table : ∃ gap, walkers.table = plain placed ++ gap ++ (cxx placed).reverse
  size_eq : walkers.table.length = size
  bottom : walkers.walkerBottom = (plain placed).length
  top : walkers.walkerTop = (size : Int) - 1 - (cxx placed).length
  count : walkers.numCxxSymbols = (cxx placed).length

theorem filled_start (table : List KextSymbol) : Filled [] table.length (walkersOf table) where
  table := ⟨table, by simp [walkersOf, plain, cxx]⟩
  size_eq := rfl
  bottom := rfl
  top := by simp [walkersOf, cxx]
  count := rfl

theorem set_at (left right : List KextSymbol) (old new : KextSymbol) :
    (left ++ old :: right).set left.length new = left ++ new :: right := by
  rw [set_append_right _ _ (le_refl _), Nat.sub_self, set_cons_zero]

theorem place_filled {size : Nat} (filled : Filled placed size walkers) (room : placed.length < size) :
    ∃ next, walkers.place entry = some next ∧ Filled (placed ++ [entry]) size next := by
  obtain ⟨⟨gap, table⟩, sized, bottom, top, count⟩ := filled
  have total := plain_cxx_length placed
  have lengths : (plain placed).length + gap.length + (cxx placed).length = size := by
    rw [← sized, table]
    simp [add_assoc]
  rw [Walkers.place]
  cases kind : machoSymbolNameIsCxx entry.name with
  | true =>
    have cxxNext : cxx (placed ++ [entry]) = cxx placed ++ [entry] := by
      simp [cxx, isCxx, kind]
    have plainNext : plain (placed ++ [entry]) = plain placed := by
      simp [plain, isCxx, kind]
    have inside : 0 ≤ walkers.walkerTop ∧ walkers.walkerTop < walkers.table.length := by
      rw [sized, top]
      omega
    rw [if_pos rfl, writeEntry, if_pos inside]
    rcases eq_nil_or_concat gap with rfl | ⟨rest, last, rfl⟩
    · rw [length_nil] at lengths
      omega
    refine ⟨_, rfl, ⟨rest, ?_⟩, ?_, ?_, ?_, ?_⟩
    · have index : walkers.walkerTop.toNat = (plain placed ++ rest).length := by
        rw [concat_eq_append, length_append, length_singleton] at lengths
        rw [top, length_append]
        omega
      have split : walkers.table = (plain placed ++ rest) ++ last :: (cxx placed).reverse := by
        rw [table]
        simp
      rw [cxxNext, plainNext, split, index, set_at]
      simp
    · exact (length_set ..).trans sized
    · rw [plainNext]
      exact bottom
    · rw [cxxNext, length_append]
      dsimp only
      rw [top]
      simp
      omega
    · rw [cxxNext, length_append]
      exact congrArg (· + 1) count
  | false =>
    have cxxNext : cxx (placed ++ [entry]) = cxx placed := by
      simp [cxx, isCxx, kind]
    have plainNext : plain (placed ++ [entry]) = plain placed ++ [entry] := by
      simp [plain, isCxx, kind]
    have inside : 0 ≤ walkers.walkerBottom ∧ walkers.walkerBottom < walkers.table.length := by
      rw [sized, bottom]
      omega
    rw [if_neg Bool.false_ne_true, writeEntry, if_pos inside]
    cases gap with
    | nil =>
      rw [length_nil] at lengths
      omega
    | cons first rest => ?_
    refine ⟨_, rfl, ⟨rest, ?_⟩, ?_, ?_, ?_, ?_⟩
    · have index : walkers.walkerBottom.toNat = (plain placed).length := by
        rw [bottom]
        exact Int.toNat_natCast _
      have split : walkers.table = plain placed ++ first :: (rest ++ (cxx placed).reverse) := by
        rw [table]
        simp
      rw [cxxNext, plainNext, split, index, set_at]
      simp
    · exact (length_set ..).trans sized
    · rw [plainNext, length_append]
      dsimp only
      rw [bottom]
      simp
    · rw [cxxNext]
      exact top
    · rw [cxxNext]
      exact count

end Lists

section Scans
variable {kext : ScannedKext} {placed : List KextSymbol} {walkers : Walkers} {size : Nat}

def keptSymbols (symbols : List MachNlist) : List MachNlist :=
  symbols.filter fun symbol => !symbol.discarded

theorem kept_discarded_length (symbols : List MachNlist) :
    (keptSymbols symbols).length + (symbols.filter MachNlist.discarded).length = symbols.length := by
  rw [add_comm, keptSymbols]
  exact (length_eq_length_filter_add MachNlist.discarded).symm

def Entries (kext : ScannedKext) (symbols : List MachNlist) (entries : List KextSymbol) : Prop :=
  Forall₂ (fun symbol entry => kext.entry symbol = .ok entry) (keptSymbols symbols) entries

theorem scan_filled {symbols : List MachNlist} {numDiscardedSyms : Nat}
    (filled : Filled placed size walkers) (room : placed.length + (keptSymbols symbols).length ≤ size) :
    ∃ outcome, kext.scan symbols walkers numDiscardedSyms = some outcome ∧
      ∀ last discarded, outcome = .ok (last, discarded) →
        discarded = numDiscardedSyms + (symbols.filter MachNlist.discarded).length ∧
          ∃ entries, Entries kext symbols entries ∧ Filled (placed ++ entries) size last := by
  induction symbols generalizing placed walkers numDiscardedSyms with
  | nil =>
    refine ⟨_, rfl, ?_⟩
    rintro last discarded ⟨⟩
    exact ⟨rfl, [], .nil, by rwa [append_nil]⟩
  | cons symbol rest ih =>
    rw [ScannedKext.scan]
    cases dropped : symbol.discarded with
    | true =>
      have kept : keptSymbols (symbol :: rest) = keptSymbols rest :=
        filter_cons_of_neg (by simp [dropped])
      rw [kept] at room
      obtain ⟨outcome, scanned, spec⟩ :
        ∃ outcome, kext.scan rest walkers (numDiscardedSyms + 1) = some outcome ∧ _ :=
          ih filled room
      refine ⟨outcome, scanned, fun last discarded same => ?_⟩
      obtain ⟨counted, entries, built, reached⟩ := spec last discarded same
      refine ⟨?_, entries, ?_, reached⟩
      · rw [filter_cons_of_pos dropped, length_cons]
        omega
      · rwa [Entries, kept]
    | false =>
      have kept : keptSymbols (symbol :: rest) = symbol :: keptSymbols rest :=
        filter_cons_of_pos (by simp [dropped])
      rw [kept, length_cons] at room
      rw [if_neg Bool.false_ne_true]
      cases built : kext.entry symbol with
      | error status => exact ⟨_, rfl, fun last discarded same => by cases same⟩
      | ok entry =>
        obtain ⟨next, wrote, further⟩ : ∃ next, walkers.place entry = some next ∧ _ :=
          place_filled filled (by omega)
        have more : (placed ++ [entry]).length + (keptSymbols rest).length ≤ size := by
          rw [length_append, length_singleton]
          omega
        obtain ⟨outcome, scanned, spec⟩ :
          ∃ outcome, kext.scan rest next numDiscardedSyms = some outcome ∧ _ := ih further more
        dsimp only
        rw [wrote]
        refine ⟨outcome, scanned, fun last discarded same => ?_⟩
        obtain ⟨counted, entries, others, reached⟩ := spec last discarded same
        refine ⟨?_, entry :: entries, ?_, ?_⟩
        · rwa [filter_cons_of_neg (by simp [dropped])]
        · rw [Entries, kept]
          exact .cons built others
        · rwa [append_assoc, singleton_append] at reached

def kxldOffsets (is32Bit : Bool) : Nat → Nat → List Nat
  | 0, _ => []
  | left + 1, entry => entry :: kxldOffsets is32Bit left (entry + kxldEntrySize is32Bit)

def KxldEntry (state : KxldState) (is32Bit : Bool) (offset : Nat) (entry : KextSymbol) : Prop :=
  ∃ name, state.entryName is32Bit offset = some name ∧
    entry = symbolEntry (state.entryAddress is32Bit offset) name

theorem kxld_filled {state : KxldState} {is32Bit : Bool} {left offset : Nat}
    (filled : Filled placed size walkers) (room : placed.length + left ≤ size) :
    ∃ outcome, state.scan is32Bit left offset walkers = some outcome ∧ ∀ last, outcome = .ok last →
        ∃ entries, Forall₂ (KxldEntry state is32Bit) (kxldOffsets is32Bit left offset) entries ∧
          Filled (placed ++ entries) size last := by
  induction left generalizing placed walkers offset with
  | zero =>
    refine ⟨_, rfl, ?_⟩
    rintro last ⟨⟩
    exact ⟨[], .nil, by rwa [append_nil]⟩
  | succ left ih =>
    rw [KxldState.scan]
    cases named : state.entryName is32Bit offset with
    | none => exact ⟨_, rfl, fun last same => by cases same⟩
    | some name =>
      obtain ⟨next, wrote, further⟩ : ∃ next,
        walkers.place (symbolEntry (state.entryAddress is32Bit offset) name) = some next ∧ _ :=
          place_filled filled (by omega)
      obtain ⟨outcome, scanned, spec⟩ : ∃ outcome, state.scan is32Bit left
        (offset + kxldEntrySize is32Bit) next = some outcome ∧ _ := ih further (by
          rw [length_append, length_singleton]
          omega)
      dsimp only
      rw [wrote]
      refine ⟨outcome, scanned, fun last same => ?_⟩
      obtain ⟨entries, others, reached⟩ := spec last same
      refine ⟨_ :: entries, .cons ⟨name, named, rfl⟩ others, ?_⟩
      rwa [append_assoc, singleton_append] at reached

end Scans

section Tables
variable {entries : List KextSymbol}

/-- The symbols in a row: first those that are not C++, in order, then the C++ ones in the
reverse order. -/
structure Layout (entries : List KextSymbol) (linked : LinkedTable) : Prop where
  symbols : linked.linkedSymbolTable.take linked.numberOfSymbols =
    plain entries ++ (cxx entries).reverse
  numberOfSymbols : linked.numberOfSymbols = entries.length
  numberOfCxxSymbols : linked.numberOfCxxSymbols = (cxx entries).length

theorem layout_of_full {walkers : Walkers} (filled : Filled entries entries.length walkers) :
    Layout entries ⟨walkers.table, entries.length, walkers.numCxxSymbols⟩ := by
  obtain ⟨⟨gap, table⟩, sized, -, -, count⟩ := filled
  have total := plain_cxx_length entries
  have lengths : (plain entries).length + gap.length + (cxx entries).length = entries.length := by
    rw [← sized, table]
    simp [add_assoc]
  have none : gap = [] := length_eq_zero_iff.mp (by omega)
  refine ⟨?_, rfl, count⟩
  rw [none, append_nil] at table
  rw [← sized, take_length, table]

theorem copy_layout {walkers : Walkers} {size discarded : Nat}
    (filled : Filled entries size walkers) (gap_eq : entries.length + discarded = size) :
    ∃ table, copyEntries walkers.table (size - walkers.numCxxSymbols - discarded)
        (size - walkers.numCxxSymbols) walkers.numCxxSymbols = some table ∧
      Layout entries ⟨table, size - discarded, walkers.numCxxSymbols⟩ := by
  obtain ⟨⟨gap, table⟩, sized, -, -, count⟩ := filled
  have total := plain_cxx_length entries
  have lengths : (plain entries).length + gap.length + (cxx entries).length = size := by
    rw [← sized, table]
    simp [add_assoc]
  have source : size - walkers.numCxxSymbols = (plain entries ++ gap).length := by
    rw [count, length_append]
    omega
  have destination : size - walkers.numCxxSymbols - discarded = (plain entries).length := by
    rw [count]
    omega
  have inside : size - walkers.numCxxSymbols + walkers.numCxxSymbols ≤ walkers.table.length ∧
      size - walkers.numCxxSymbols - discarded + walkers.numCxxSymbols ≤ walkers.table.length := by
    rw [sized, count]
    omega
  have upper : (walkers.table.drop (size - walkers.numCxxSymbols)).take walkers.numCxxSymbols =
      (cxx entries).reverse := by
    rw [source, table, drop_left, count, ← length_reverse, take_length]
  have lower : walkers.table.take (size - walkers.numCxxSymbols - discarded) = plain entries := by
    rw [destination, table, append_assoc, take_left]
  have whole : size - discarded = (plain entries ++ (cxx entries).reverse).length := by
    rw [length_append, length_reverse]
    omega
  rw [copyEntries, if_pos inside, upper, lower]
  refine ⟨_, rfl, ?_, ?_, count⟩
  · rw [whole, take_left]
  · dsimp only
    omega

/-- The build of a table from Mach-O symbols writes no entry outside it, and in the end the
kept symbols are in it, each once. -/
theorem internalScanBuildLinkedSymbolTable_layout (kext : ScannedKext)
    (allocated : Option (List KextSymbol))
    (sized : ∀ table, allocated = some table → table.length = kext.symbolTable.length) :
    ∃ outcome, internalScanBuildLinkedSymbolTable kext allocated = some outcome ∧
      ∀ linked, outcome = .ok linked →
        ∃ entries, Entries kext kext.symbolTable entries ∧ Layout entries linked := by
  cases allocated with
  | none => exact ⟨_, rfl, fun linked same => by cases same⟩
  | some table =>
    have size := sized table rfl
    have total := kept_discarded_length kext.symbolTable
    have start : Filled [] kext.symbolTable.length (walkersOf table) := size ▸ filled_start table
    obtain ⟨outcome, scanned, spec⟩ : ∃ outcome,
      kext.scan kext.symbolTable (walkersOf table) 0 = some outcome ∧ _ :=
        scan_filled start (by rw [length_nil]; omega)
    rw [internalScanBuildLinkedSymbolTable]
    dsimp only
    rw [scanned]
    match outcome, spec with
    | .error status, _ => exact ⟨_, rfl, fun linked same => by cases same⟩
    | .ok (last, discarded), spec =>
      obtain ⟨counted, entries, built, filled⟩ := spec last discarded rfl
      have kept : (keptSymbols kext.symbolTable).length = entries.length := built.length_eq
      rw [nil_append] at filled
      dsimp only
      split
      · obtain ⟨final, copied, layout⟩ := copy_layout filled
          (show entries.length + discarded = kext.symbolTable.length by omega)
        rw [copied]
        refine ⟨_, rfl, ?_⟩
        rintro linked ⟨⟩
        exact ⟨entries, built, layout⟩
      · have full : kext.symbolTable.length = entries.length := by omega
        rw [full] at filled ⊢
        refine ⟨_, rfl, ?_⟩
        rintro linked ⟨⟩
        exact ⟨entries, built, layout_of_full filled⟩

theorem internalKxldStateBuildLinkedSymbolTable_layout (state : KxldState) (is32Bit : Bool)
    (allocate : Nat → Option (List KextSymbol))
    (sized : ∀ count table, allocate count = some table → table.length = count) :
    ∃ outcome, internalKxldStateBuildLinkedSymbolTable state is32Bit allocate = some outcome ∧
      ∀ linked, outcome = .ok linked →
        ∃ start count entries, internalGetKxldSymbols state is32Bit = some (start, count) ∧
          Forall₂ (KxldEntry state is32Bit) (kxldOffsets is32Bit count start) entries ∧
          Layout entries linked := by
  rw [internalKxldStateBuildLinkedSymbolTable]
  cases located : internalGetKxldSymbols state is32Bit with
  | none => exact ⟨_, rfl, fun linked same => by cases same⟩
  | some symbols =>
    obtain ⟨offset, count⟩ := symbols
    dsimp only
    cases allocated : allocate count with
    | none => exact ⟨_, rfl, fun linked same => by cases same⟩
    | some table =>
      have size := sized count table allocated
      have start : Filled [] count (walkersOf table) := size ▸ filled_start table
      obtain ⟨outcome, scanned, spec⟩ : ∃ outcome,
        state.scan is32Bit count offset (walkersOf table) = some outcome ∧ _ :=
          kxld_filled start (by rw [length_nil, zero_add])
      dsimp only
      rw [scanned]
      match outcome, spec with
      | .error status, _ => exact ⟨_, rfl, fun linked same => by cases same⟩
      | .ok last, spec =>
        obtain ⟨entries, built, filled⟩ := spec last rfl
        rw [nil_append] at filled
        have offsets : ∀ left start, (kxldOffsets is32Bit left start).length = left := by
          intro left
          induction left with
          | zero => exact fun _ => rfl
          | succ left ih => exact fun _ => congrArg (· + 1) (ih _)
        have full : count = entries.length := (offsets count offset).symm.trans built.length_eq
        refine ⟨_, rfl, ?_⟩
        rintro linked ⟨⟩
        refine ⟨offset, count, entries, rfl, built, ?_⟩
        rw [full] at filled ⊢
        exact layout_of_full filled

/-- Both builds of a kext that is not linked yet, from an allocator that gives as many
entries as it was asked for. -/
theorem buildLinkedSymbolTable_layout (allocate : Nat → Option (List KextSymbol))
    (sized : ∀ count table, allocate count = some table → table.length = count)
    (kext : ScannedKext) (state : KxldState) (is32Bit : Bool) :
    (∃ outcome, internalScanBuildLinkedSymbolTable kext (allocate kext.symbolTable.length) =
        some outcome ∧
      ∀ linked, outcome = .ok linked →
        ∃ entries, Entries kext kext.symbolTable entries ∧ Layout entries linked) ∧
    (∃ outcome, internalKxldStateBuildLinkedSymbolTable state is32Bit allocate = some outcome ∧
      ∀ linked, outcome = .ok linked →
        ∃ start count entries, internalGetKxldSymbols state is32Bit = some (start, count) ∧
          Forall₂ (KxldEntry state is32Bit) (kxldOffsets is32Bit count start) entries ∧
          Layout entries linked) :=
  ⟨internalScanBuildLinkedSymbolTable_layout kext _ (sized _),
    internalKxldStateBuildLinkedSymbolTable_layout state is32Bit allocate sized⟩

def undefinedAndCxx : ScannedKext where
  symbolTable := [⟨0, 0, 0⟩, ⟨0, 0x0F, 0x1000⟩]
  string := fun _ => ⟨cxxPrefix, by simp [cxxPrefix], by decide⟩
  stringsSize := 4
  resolveSymbols := false
  is32Bit := false
  resolved := fun _ => none

def zeroPool (count : Nat) : Option (List KextSymbol) :=
  some (replicate count (symbolEntry 0 ⟨[], by simp, by decide⟩))

/-- A KXLD state of a C++ symbol and a plain one. -/
def cxxAndPlain : KxldState where
  memory := fun index => ([0x0D, 0xD0, 0x0D, 0xF0, 1, 0, 0, 0, 7, 0, 0, 1] ++ replicate 20 0 ++
    [2, 0, 0, 0, 40, 0, 0, 0, 0, 16, 0, 0, 0, 0, 0, 0, 72, 0, 0, 0, 0, 0, 0, 0,
      0, 32, 0, 0, 0, 0, 0, 0, 76, 0, 0, 0, 0, 0, 0, 0] ++ cxxPrefix ++ [0, 0x61, 0]).getD index 0
  address := 0
  size := 78
  bounded := by decide

theorem buildLinkedSymbolTable_layout_undefinedAndCxx :
    (∃ linked, internalScanBuildLinkedSymbolTable undefinedAndCxx (zeroPool 2) = some (.ok linked) ∧
      ∃ entries, Entries undefinedAndCxx undefinedAndCxx.symbolTable entries ∧
        Layout entries linked) ∧
    ∃ linked, internalKxldStateBuildLinkedSymbolTable cxxAndPlain false zeroPool =
        some (.ok linked) ∧
      ∃ start count entries, internalGetKxldSymbols cxxAndPlain false = some (start, count) ∧
        Forall₂ (KxldEntry cxxAndPlain false) (kxldOffsets false count start) entries ∧
        Layout entries linked := by
  obtain ⟨⟨scanned, scan, laid⟩, stated, build, laid'⟩ := buildLinkedSymbolTable_layout zeroPool
    (fun count _ same => by cases same; exact length_replicate) undefinedAndCxx cxxAndPlain false
  obtain ⟨linked, first⟩ : ∃ linked,
    internalScanBuildLinkedSymbolTable undefinedAndCxx (zeroPool 2) = some (.ok linked) := ⟨_, rfl⟩
  obtain ⟨linked', second⟩ : ∃ linked,
    internalKxldStateBuildLinkedSymbolTable cxxAndPlain false zeroPool = some (.ok linked) :=
      ⟨_, rfl⟩
  exact ⟨⟨linked, first, laid _ (Option.some.inj (scan.symm.trans first))⟩,
    linked', second, laid' _ (Option.some.inj (build.symm.trans second))⟩

end Tables

end OpenCore.SymbolLayout
