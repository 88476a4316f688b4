import OpenCore.MachoWindows
import OpenCore.Relocation

/-!
The symbol information of a Mach-O file: `InternalInitialiseSymtabs` checks and stores
the tables, and the lookups by relocation go over them. Every entry of a relocation table
that a lookup reads is recorded by its address. A file does not reach past the end of the
address space.
-/

namespace OpenCore.MachoSymbols

open Base AddressSpace MachoHeader MachoImage MachoLookup MachoWindows Relocation

structure SymbolFile extends Lookup where
  memory : Memory
  fileData : Nat

def null : Nat := 0

def nlistSize : MachX → Nat
  | .mach32 => 12
  | .mach64 => 16

def nlistAlignment (arch : MachX) : Nat := arch.uintSize

def relocationInfoSize : Nat := 8

def machRelocAbsolute : BitVec 24 := 0

structure Symtabs where
  symtab : Symtab
  dySymtab : Option DySymtab
  symbolTable : Nat
  stringTable : Nat
  localRelocations : Nat
  externRelocations : Nat

section Initialise
variable (file : SymbolFile)

def topWithin (bound : Nat) : Option Nat → Bool
  | none => false
  | some offsetTop => decide (offsetTop ≤ bound)

def tableWithin (count size offset : Nat) : Bool :=
  topWithin file.fileSize (baseOverflowMulAdd u32 count size offset)

def relocationTable (count offset : Nat) : Option Nat :=
  if count > 0 ∧ offset ≠ 0 then
    if !tableWithin file count relocationInfoSize offset then none
    else if Aligned (file.fileData + offset) then some (file.fileData + offset)
    else none
  else some null

def symbolsWithin (symtab : Symtab) (index count : Nat) : Bool :=
  topWithin symtab.numSymbols (baseOverflowAdd u32 index count)

def internalInitialiseSymtabs (symtab : Symtab) (dySymtab : Option DySymtab) : Option Symtabs :=
  let stringTable := file.fileData + symtab.stringsOffset
  let symbolTable := file.fileData + symtab.symbolsOffset
  if !tableWithin file symtab.numSymbols (nlistSize file.arch) symtab.symbolsOffset then none
  else if !topWithin file.fileSize
      (baseOverflowAdd u32 symtab.stringsOffset symtab.stringsSize) then none
  else if symtab.stringsSize = 0 ∨ file.memory (stringTable + symtab.stringsSize - 1) ≠ 0 then
    none
  else if symbolTable % nlistAlignment file.arch ≠ 0 then none
  else
    match dySymtab with
    | none => some ⟨symtab, none, symbolTable, stringTable, null, null⟩
    | some table =>
      if !symbolsWithin symtab table.localSymbolsIndex table.numLocalSymbols then none
      else if !symbolsWithin symtab table.externalSymbolsIndex table.numExternalSymbols then none
      else if !symbolsWithin symtab table.undefinedSymbolsIndex table.numUndefinedSymbols then
        none
      else
        match relocationTable file table.numOfLocalRelocations table.localRelocationsOffset with
        | none => none
        | some localRelocations =>
          match relocationTable file table.numExternalRelocations
              table.externalRelocationsOffset with
          | none => none
          | some externRelocations => some
              ⟨symtab, some table, symbolTable, stringTable, localRelocations,
                externRelocations⟩

end Initialise

section Lookups
variable (file : SymbolFile) (tables : Symtabs)

def symbolStringIndex (symbol : Nat) : Nat := load file.memory 4 symbol

def symbolValue (symbol : Nat) : Nat := load file.memory file.arch.uintSize (symbol + 8)

def internalSymbolIsSane (symbol : Nat) : Bool :=
  decide (symbolStringIndex file symbol < tables.symtab.stringsSize)

def symbolAt (index : Nat) : Nat := tables.symbolTable + index * nlistSize file.arch

def machoGetSymbolByIndex (index : Nat) : Option Nat :=
  if index < tables.symtab.numSymbols then
    if internalSymbolIsSane file tables (symbolAt file tables index) then
      some (symbolAt file tables index)
    else none
  else none

/-- `MachoGetSymbolName`, as far as its assertion on the string index holds. -/
def machoGetSymbolName (symbol : Nat) : Option Nat :=
  if internalSymbolIsSane file tables symbol then
    some (tables.stringTable + symbolStringIndex file symbol)
  else none

def symbolByValueFrom (value : Nat) : Nat → Nat → Option Nat
  | 0, _ => none
  | left + 1, index =>
    let symbol := symbolAt file tables index
    if symbolValue file symbol = value then some symbol
    else symbolByValueFrom value left (index + 1)

def internalGetSymbolByValue (value : Nat) : Option Nat :=
  symbolByValueFrom file tables value tables.symtab.numSymbols 0

def readRelocation (place : Nat) : RelocationInfo :=
  let fields := load file.memory 4 (place + 4)
  { address := BitVec.ofNat 32 (load file.memory 4 place)
    symbolNumber := BitVec.ofNat 24 fields
    pcRelative := fields.testBit 24
    size := BitVec.ofNat 2 (fields / 2 ^ 25)
    isExtern := fields.testBit 27
    type := BitVec.ofNat 4 (fields / 2 ^ 28) }

structure Search where
  found : Option RelocationInfo
  reads : List Nat

def Search.after (place : Nat) (search : Search) : Search :=
  ⟨search.found, place :: search.reads⟩

def isAbsolute (relocation : RelocationInfo) : Bool :=
  !relocation.isExtern && relocation.symbolNumber == machRelocAbsolute

def relocationAddress (relocation : RelocationInfo) : Nat :=
  (relocation.address.signExtend 64).toNat

/-- The loop of `InternalLookupRelocationByOffset`, which takes at most a turn for each
entry. -/
def lookupRelocationFrom (address numRelocs relocs : Nat) : Nat → Nat → Search
  | 0, _ => ⟨none, []⟩
  | turns + 1, index =>
    if index < numRelocs then
      let place := relocs + index * relocationInfoSize
      let relocation := readRelocation file place
      Search.after place <|
        if isAbsolute relocation then
          lookupRelocationFrom address numRelocs relocs turns (index + 1)
        else if relocationAddress relocation = address then ⟨some relocation, []⟩
        else if machoRelocationIsPair false relocation.type then
          if index = u32 - 2 then ⟨none, []⟩
          else lookupRelocationFrom address numRelocs relocs turns (index + 2)
        else lookupRelocationFrom address numRelocs relocs turns (index + 1)
    else ⟨none, []⟩

def internalLookupRelocationByOffset (address numRelocs relocs : Nat) : Search :=
  lookupRelocationFrom file address numRelocs relocs numRelocs 0

def sectionTarget (sect : PlacedSection) (relocation : RelocationInfo) : Nat :=
  (relocationAddress relocation + sect.address) % limit file.arch

def lookupInSectionFrom (address : Nat) (isExternal : Bool) (sect : PlacedSection) :
    Nat → Nat → Search
  | 0, _ => ⟨none, []⟩
  | left + 1, index =>
    let place := file.fileData + sect.relocationsOffset + index * relocationInfoSize
    let relocation := readRelocation file place
    Search.after place <|
      if isAbsolute relocation || relocation.isExtern != isExternal then
        lookupInSectionFrom address isExternal sect left (index + 1)
      else if sectionTarget file sect relocation = address then ⟨some relocation, []⟩
      else lookupInSectionFrom address isExternal sect left (index + 1)

/-- The loop of `InternalLookupSectionRelocationByOffset`, with the sections left. -/
def lookupSectionsFrom (address : Nat) (isExternal : Bool) : Nat → Nat → Search
  | 0, _ => ⟨none, []⟩
  | left + 1, sectionIndex =>
    match machoGetSectionByIndex file.toLookup sectionIndex with
    | none => ⟨none, []⟩
    | some (_, sect) =>
      let search := lookupInSectionFrom file address isExternal sect sect.numRelocations 0
      match search.found with
      | some relocation => ⟨some relocation, search.reads⟩
      | none =>
        let rest := lookupSectionsFrom address isExternal left (sectionIndex + 1)
        ⟨rest.found, search.reads ++ rest.reads⟩

def sectionCount : Nat := (file.segments.map fun segment => segment.sections.length).sum

def internalLookupSectionRelocationByOffset (address : Nat) (isExternal : Bool) : Search :=
  lookupSectionsFrom file address isExternal (sectionCount file) 0

def internalGetExternRelocationByOffset (address : Nat) : Search :=
  match tables.dySymtab with
  | none => internalLookupSectionRelocationByOffset file address true
  | some table =>
    internalLookupRelocationByOffset file address table.numExternalRelocations
      tables.externRelocations

def internalGetLocalRelocationByOffset (address : Nat) : Search :=
  match tables.dySymtab with
  | none => internalLookupSectionRelocationByOffset file address false
  | some table =>
    internalLookupRelocationByOffset file address table.numOfLocalRelocations
      tables.localRelocations

/-- What a lookup of a symbol comes to: whether it succeeds, with which symbol, and the
relocation entries it reads. -/
structure SymbolSearch where
  result : Option (Option Nat)
  reads : List Nat

def internalGetSymbolByExternRelocationOffset (address : Nat) : SymbolSearch :=
  let search := internalGetExternRelocationByOffset file tables address
  ⟨search.found.map fun relocation =>
    machoGetSymbolByIndex file tables relocation.symbolNumber.toNat, search.reads⟩

def machoGetSymbolByExternRelocationOffset (address : Nat) : SymbolSearch :=
  if address ≥ file.fileSize then ⟨none, []⟩
  else internalGetSymbolByExternRelocationOffset file tables address

def storedSymbol (uintn address : Nat) : Option (Option Nat) :=
  match internalMachoGetFilePointerByAddress file.toLookup uintn address with
  | none => none
  | some window =>
    if window.maxSize < file.arch.uintSize then none
    else
      let data := file.fileData + window.offset
      let value := load file.memory file.arch.uintSize data
      if data % file.arch.uintSize = 0 then
        some <|
          match internalGetSymbolByValue file tables value with
          | none => none
          | some symbol => if internalSymbolIsSane file tables symbol then some symbol else none
      else some none

def machoGetSymbolByRelocationOffset (uintn address : Nat) : SymbolSearch :=
  if !topWithin file.fileSize (baseOverflowAdd (limit file.arch) address file.arch.uintSize) then
    ⟨none, []⟩
  else
    let external := internalGetSymbolByExternRelocationOffset file tables address
    match external.result with
    | some symbol => ⟨some symbol, external.reads⟩
    | none =>
      let search := internalGetLocalRelocationByOffset file tables address
      match search.found with
      | none => ⟨none, external.reads ++ search.reads⟩
      | some _ => ⟨storedSymbol file tables uintn address, external.reads ++ search.reads⟩

end Lookups

section Safety
variable (file : SymbolFile) (tables : Symtabs)

def InsideFile (start size : Nat) : Prop :=
  file.fileData ≤ start ∧ start + size ≤ file.fileData + file.fileSize

structure TablesInside : Prop where
  symbols : InsideFile file tables.symbolTable (tables.symtab.numSymbols * nlistSize file.arch)
  strings : InsideFile file tables.stringTable tables.symtab.stringsSize
  terminated : 0 < tables.symtab.stringsSize ∧
    file.memory (tables.stringTable + tables.symtab.stringsSize - 1) = 0
  external : ∀ table ∈ tables.dySymtab, 0 < table.numExternalRelocations →
    table.externalRelocationsOffset ≠ 0 →
      InsideFile file tables.externRelocations (table.numExternalRelocations * relocationInfoSize)
  internal : ∀ table ∈ tables.dySymtab, 0 < table.numOfLocalRelocations →
    table.localRelocationsOffset ≠ 0 →
      InsideFile file tables.localRelocations (table.numOfLocalRelocations * relocationInfoSize)

def NameInside (name : Nat) : Prop :=
  tables.stringTable ≤ name ∧
    ∃ stop, name ≤ stop ∧ stop < tables.stringTable + tables.symtab.stringsSize ∧
      file.memory stop = 0

def Placed : Prop :=
  ∀ table ∈ tables.dySymtab,
    (0 < table.numExternalRelocations → table.externalRelocationsOffset ≠ 0) ∧
    (0 < table.numOfLocalRelocations → table.localRelocationsOffset ≠ 0)

def InTable (start count place : Nat) : Prop :=
  ∃ index < count, place = start + index * relocationInfoSize

def EntryOfFile (place : Nat) : Prop :=
  (∃ table ∈ tables.dySymtab,
    InTable tables.externRelocations table.numExternalRelocations place ∨
      InTable tables.localRelocations table.numOfLocalRelocations place) ∨
  tables.dySymtab = none ∧ ∃ segment ∈ file.segments, ∃ sect ∈ segment.sections,
    InTable (file.fileData + sect.relocationsOffset) sect.numRelocations place

variable {file tables}

theorem topWithin_add {bound left right : Nat}
    (within : topWithin bound (baseOverflowAdd u32 left right) = true) :
    left + right ≤ bound := by
  cases added : baseOverflowAdd u32 left right with
  | none =>
    rw [added] at within
    cases within
  | some top =>
    rw [added] at within
    obtain ⟨rfl, _⟩ := baseOverflowAdd_eq_some added
    exact of_decide_eq_true within

theorem tableWithin_inside {count size offset : Nat}
    (within : tableWithin file count size offset = true) :
    InsideFile file (file.fileData + offset) (count * size) := by
  rw [tableWithin] at within
  cases computed : baseOverflowMulAdd u32 count size offset with
  | none =>
    rw [computed] at within
    cases within
  | some top =>
    rw [computed] at within
    obtain ⟨rfl, _⟩ := baseOverflowMulAdd_eq_some computed
    have bound := of_decide_eq_true within
    exact ⟨Nat.le_add_right _ _, by omega⟩

theorem relocationTable_inside {count offset place : Nat}
    (stored : relocationTable file count offset = some place) (some : 0 < count)
    (placed : offset ≠ 0) : InsideFile file place (count * relocationInfoSize) := by
  rw [relocationTable, if_pos ⟨some, placed⟩] at stored
  split at stored
  · cases stored
  rename_i within
  split at stored
  · cases stored
    exact tableWithin_inside (by simpa using within)
  · cases stored

theorem internalInitialiseSymtabs_inside {symtab : Symtab} {dySymtab : Option DySymtab}
    (initialised : internalInitialiseSymtabs file symtab dySymtab = some tables) :
    TablesInside file tables ∧ tables.symtab = symtab ∧ tables.dySymtab = dySymtab := by
  unfold internalInitialiseSymtabs at initialised
  dsimp only at initialised
  split at initialised
  · cases initialised
  rename_i symbols
  split at initialised
  · cases initialised
  rename_i strings
  split at initialised
  · cases initialised
  rename_i terminated
  split at initialised
  · cases initialised
  have symbolsInside := tableWithin_inside (by simpa using symbols)
  have stringsTop := topWithin_add (by simpa using strings)
  have stringsInside :
      InsideFile file (file.fileData + symtab.stringsOffset) symtab.stringsSize :=
    ⟨Nat.le_add_right _ _, by omega⟩
  -- An empty string table has no last byte and is refused.
  have ended : 0 < symtab.stringsSize ∧
      file.memory (file.fileData + symtab.stringsOffset + symtab.stringsSize - 1) = 0 := by
    rw [not_or, not_not] at terminated
    exact ⟨Nat.pos_of_ne_zero terminated.1, terminated.2⟩
  split at initialised
  · cases initialised
    exact ⟨⟨symbolsInside, stringsInside, ended, by simp, by simp⟩, rfl, rfl⟩
  · split at initialised
    · cases initialised
    split at initialised
    · cases initialised
    split at initialised
    · cases initialised
    split at initialised
    · cases initialised
    rename_i localRelocations localStored
    split at initialised
    · cases initialised
    rename_i externRelocations externStored
    -- The tables of relocations are checked only where they have an offset.
    cases initialised
    refine ⟨⟨symbolsInside, stringsInside, ended, ?_, ?_⟩, rfl, rfl⟩
    · intro table same
      cases same
      exact relocationTable_inside externStored
    · intro table same
      cases same
      exact relocationTable_inside localStored

theorem TablesInside.name {symbol name : Nat} (inside : TablesInside file tables)
    (named : machoGetSymbolName file tables symbol = some name) : NameInside file tables name := by
  rw [machoGetSymbolName] at named
  split at named
  · rename_i sane
    cases named
    have bound := of_decide_eq_true sane
    obtain ⟨_, ended⟩ := inside.terminated
    refine ⟨Nat.le_add_right _ _, tables.stringTable + tables.symtab.stringsSize - 1, ?_, ?_, ended⟩
    · omega
    · omega
  · cases named

inductive HandedOut (file : SymbolFile) (tables : Symtabs) : Nat → Prop where
  | byIndex {index symbol : Nat} (found : machoGetSymbolByIndex file tables index = some symbol) :
      HandedOut file tables symbol
  | byExternRelocation {address symbol : Nat}
      (found : (machoGetSymbolByExternRelocationOffset file tables address).result =
        some (some symbol)) :
      HandedOut file tables symbol
  | byRelocation {uintn address symbol : Nat}
      (found : (machoGetSymbolByRelocationOffset file tables uintn address).result =
        some (some symbol)) :
      HandedOut file tables symbol

theorem machoGetSymbolByIndex_sane {index symbol : Nat}
    (found : machoGetSymbolByIndex file tables index = some symbol) :
    internalSymbolIsSane file tables symbol = true := by
  rw [machoGetSymbolByIndex] at found
  split at found
  · split at found
    · rename_i sane
      cases found
      exact sane
    · cases found
  · cases found

theorem externRelocation_sane {address symbol : Nat}
    (found : (internalGetSymbolByExternRelocationOffset file tables address).result =
      some (some symbol)) : internalSymbolIsSane file tables symbol = true := by
  obtain ⟨relocation, _, indexed⟩ := Option.map_eq_some_iff.mp found
  exact machoGetSymbolByIndex_sane indexed

theorem storedSymbol_sane {uintn address symbol : Nat}
    (found : storedSymbol file tables uintn address = some (some symbol)) :
    internalSymbolIsSane file tables symbol = true := by
  rw [storedSymbol] at found
  split at found
  · cases found
  split at found
  · cases found
  dsimp only at found
  split at found
  · rw [Option.some.injEq] at found
    split at found
    · cases found
    · split at found
      · rename_i sane
        cases found
        exact sane
      · cases found
  · cases found

/-- The assertion of `MachoGetSymbolName` holds for what the lookups hand out. -/
theorem HandedOut.named {symbol : Nat} (handedOut : HandedOut file tables symbol) :
    ∃ name, machoGetSymbolName file tables symbol = some name := by
  have sane : internalSymbolIsSane file tables symbol = true := by
    cases handedOut with
    | byIndex found => exact machoGetSymbolByIndex_sane found
    | byExternRelocation found =>
      rw [machoGetSymbolByExternRelocationOffset] at found
      split at found
      · cases found
      · exact externRelocation_sane found
    | byRelocation found =>
      unfold machoGetSymbolByRelocationOffset at found
      dsimp only at found
      split at found
      · cases found
      split at found
      · rename_i external
        cases found
        exact externRelocation_sane external
      · split at found
        · cases found
        · exact storedSymbol_sane found
  exact ⟨_, if_pos sane⟩

theorem lookupRelocationFrom_reads {address numRelocs relocs turns index place : Nat}
    (read : place ∈ (lookupRelocationFrom file address numRelocs relocs turns index).reads) :
    InTable relocs numRelocs place := by
  induction turns generalizing index with
  | zero => cases read
  | succ turns ih =>
    rw [lookupRelocationFrom] at read
    split at read
    · rename_i bound
      rcases List.mem_cons.mp read with rfl | later
      · exact ⟨index, bound, rfl⟩
      · split at later
        · exact ih later
        split at later
        · cases later
        split at later
        · split at later
          · cases later
          · exact ih later
        · exact ih later
    · cases read

variable {isExternal : Bool}

theorem lookupInSectionFrom_reads {address left index place : Nat} {sect : PlacedSection}
    (read : place ∈ (lookupInSectionFrom file address isExternal sect left index).reads) :
    InTable (file.fileData + sect.relocationsOffset) (index + left) place := by
  induction left generalizing index with
  | zero => cases read
  | succ left ih =>
    have onward : index + 1 + left = index + (left + 1) := by omega
    rw [lookupInSectionFrom] at read
    rcases List.mem_cons.mp read with rfl | later
    · exact ⟨index, by omega, rfl⟩
    · rw [← onward]
      split at later
      · exact ih later
      split at later
      · cases later
      · exact ih later

theorem InTable.inside {start count place : Nat} (member : InTable start count place)
    (table : 0 < count → InsideFile file start (count * relocationInfoSize)) :
    InsideFile file place relocationInfoSize := by
  obtain ⟨index, bound, rfl⟩ := member
  obtain ⟨lower, upper⟩ := table (Nat.zero_lt_of_lt bound)
  have scaled := Nat.mul_le_mul_right relocationInfoSize bound
  rw [Nat.succ_mul] at scaled
  exact ⟨by omega, by omega⟩

def SectionEntry (file : SymbolFile) (place : Nat) : Prop :=
  ∃ segment ∈ file.segments, ∃ sect ∈ segment.sections,
    internalSectionIsSane file.toLookup sect segment = true ∧
      InTable (file.fileData + sect.relocationsOffset) sect.numRelocations place

theorem lookupSectionsFrom_reads {address left sectionIndex place : Nat}
    (fits : sectionIndex + left < u32)
    (read : place ∈ (lookupSectionsFrom file address isExternal left sectionIndex).reads) :
    SectionEntry file place := by
  induction left generalizing sectionIndex with
  | zero => cases read
  | succ left ih =>
    rw [lookupSectionsFrom] at read
    split at read
    · cases read
    rename_i segment sect indexed
    obtain ⟨member, stored, checked⟩ := machoGetSectionByIndex_eq_some (by omega) indexed
    have here : place ∈
        (lookupInSectionFrom file address isExternal sect sect.numRelocations 0).reads →
          SectionEntry file place := by
      intro read
      have entry := lookupInSectionFrom_reads read
      rw [zero_add] at entry
      exact ⟨segment, member, sect, stored, checked, entry⟩
    dsimp only at read
    split at read
    · exact here read
    · rcases List.mem_append.mp read with first | later
      · exact here first
      · exact ih (by omega) later

theorem SectionEntry.inside {place : Nat} (entry : SectionEntry file place) :
    InsideFile file place relocationInfoSize := by
  obtain ⟨segment, member, sect, stored, checked, inTable⟩ := entry
  have sane := SaneSection.of_check member checked
  apply inTable.inside
  intro some
  have top := sane.relocations (ne_of_gt some)
  exact ⟨Nat.le_add_right _ _, by rw [relocationInfoSize]; omega⟩

def EntryInside (file : SymbolFile) (tables : Symtabs) (place : Nat) : Prop :=
  EntryOfFile file tables place ∧ InsideFile file place relocationInfoSize

theorem sectionLookup_reads {address place : Nat} (missing : tables.dySymtab = none)
    (read : place ∈ (internalLookupSectionRelocationByOffset file address isExternal).reads) :
    EntryInside file tables place := by
  have fits : 0 + sectionCount file < u32 := by
    rw [zero_add]
    exact file.sectionsFit
  have entry := lookupSectionsFrom_reads fits read
  have inside := entry.inside
  obtain ⟨segment, member, sect, stored, -, inTable⟩ := entry
  exact ⟨Or.inr ⟨missing, segment, member, sect, stored, inTable⟩, inside⟩

section Initialised
variable (inside : TablesInside file tables) (placed : Placed tables)
variable {address place : Nat}
include inside placed

theorem internalGetExternRelocationByOffset_reads
    (read : place ∈ (internalGetExternRelocationByOffset file tables address).reads) :
    EntryInside file tables place := by
  rw [internalGetExternRelocationByOffset] at read
  split at read
  · rename_i missing
    exact sectionLookup_reads missing read
  · rename_i table found
    have entry := lookupRelocationFrom_reads read
    refine ⟨Or.inl ⟨table, found, Or.inl entry⟩, entry.inside ?_⟩
    intro some
    exact inside.external table found some ((placed table found).1 some)

theorem internalGetLocalRelocationByOffset_reads
    (read : place ∈ (internalGetLocalRelocationByOffset file tables address).reads) :
    EntryInside file tables place := by
  rw [internalGetLocalRelocationByOffset] at read
  split at read
  · rename_i missing
    exact sectionLookup_reads missing read
  · rename_i table found
    have entry := lookupRelocationFrom_reads read
    refine ⟨Or.inl ⟨table, found, Or.inr entry⟩, entry.inside ?_⟩
    intro some
    exact inside.internal table found some ((placed table found).2 some)

theorem machoGetSymbolByExternRelocationOffset_reads
    (read : place ∈ (machoGetSymbolByExternRelocationOffset file tables address).reads) :
    EntryInside file tables place := by
  rw [machoGetSymbolByExternRelocationOffset] at read
  split at read
  · cases read
  · exact internalGetExternRelocationByOffset_reads inside placed read

theorem machoGetSymbolByRelocationOffset_reads {uintn address place : Nat}
    (read : place ∈ (machoGetSymbolByRelocationOffset file tables uintn address).reads) :
    EntryInside file tables place := by
  unfold machoGetSymbolByRelocationOffset at read
  dsimp only at read
  split at read
  · cases read
  have both : place ∈ (internalGetExternRelocationByOffset file tables address).reads ++
      (internalGetLocalRelocationByOffset file tables address).reads →
        EntryInside file tables place := by
    intro read
    rcases List.mem_append.mp read with external | internal
    · exact internalGetExternRelocationByOffset_reads inside placed external
    · exact internalGetLocalRelocationByOffset_reads inside placed internal
  split at read
  · exact internalGetExternRelocationByOffset_reads inside placed read
  · split at read
    · exact both read
    · exact both read

end Initialised

/-- The table of indirect symbols is not one of those that are set up here. -/
theorem internalInitialiseSymtabs_tables (file : SymbolFile) (symtab : Symtab)
    (dySymtab : Option DySymtab) {tables : Symtabs}
    (initialised : internalInitialiseSymtabs file symtab dySymtab = some tables) :
    (tables.symtab = symtab ∧ tables.dySymtab = dySymtab ∧ TablesInside file tables) ∧
      (∀ symbol name, machoGetSymbolName file tables symbol = some name →
        NameInside file tables name) ∧
      (∀ symbol, HandedOut file tables symbol →
        ∃ name, machoGetSymbolName file tables symbol = some name) ∧
      (Placed tables → ∀ uintn address place,
        place ∈ (machoGetSymbolByExternRelocationOffset file tables address).reads ∨
          place ∈ (machoGetSymbolByRelocationOffset file tables uintn address).reads →
            EntryInside file tables place) := by
  obtain ⟨inside, sameSymtab, sameDySymtab⟩ := internalInitialiseSymtabs_inside initialised
  refine ⟨⟨sameSymtab, sameDySymtab, inside⟩, fun symbol name => inside.name,
    fun symbol => HandedOut.named, ?_⟩
  rintro placed uintn address place (external | relocation)
  · exact machoGetSymbolByExternRelocationOffset_reads inside placed external
  · exact machoGetSymbolByRelocationOffset_reads inside placed relocation

def blankFile : SymbolFile where
  arch := .mach64
  fileSize := 0x100
  segments := []
  fileSizeFits := by decide
  segmentsInside := by simp
  addressesFit := by simp
  sectionsFit := by decide
  memory := fun _ => 0
  fileData := 0x1000

def blankSymtab : Symtab := ⟨0x20, 24, 0, 0, 0, 1⟩

def looseDySymtab : DySymtab where
  place := 0x38
  commandSize := 80
  localSymbolsIndex := 0
  numLocalSymbols := 0
  externalSymbolsIndex := 0
  numExternalSymbols := 0
  undefinedSymbolsIndex := 0
  numUndefinedSymbols := 0
  tableOfContentsFileOffset := 0
  tableOfContentsNumEntries := 0
  moduleTableFileOffset := 0
  moduleTableNumEntries := 0
  referencedSymbolTableFileOffset := 0
  referencedSymbolTableNumEntries := 0
  indirectSymbolsOffset := 0x10000000
  numIndirectSymbols := 1
  externalRelocationsOffset := 0
  numExternalRelocations := 1
  localRelocationsOffset := 0
  numOfLocalRelocations := 0

def looseTables : Symtabs := ⟨blankSymtab, some looseDySymtab, 0x1000, 0x1000, null, null⟩

theorem internalInitialiseSymtabs_tables_loose :
    internalInitialiseSymtabs blankFile blankSymtab (some looseDySymtab) = some looseTables ∧
    ¬InsideFile blankFile (blankFile.fileData + looseDySymtab.indirectSymbolsOffset)
      (looseDySymtab.numIndirectSymbols * 4) ∧
    null ∈ (machoGetSymbolByExternRelocationOffset blankFile looseTables 0).reads ∧
    ¬InsideFile blankFile null relocationInfoSize := by
  refine ⟨rfl, ?_, by decide, ?_⟩
  · intro inside
    exact absurd inside.2 (by decide)
  · intro inside
    exact absurd inside.1 (by decide)

/-- Two symbols at 0x40, their names at 0x60, two external relocations at 0x70 and a local
one at 0x80. -/
def symbolsFile : SymbolFile :=
  { blankFile with
    memory := fun address => (([(0x1050, 1), (0x1061, 0x61), (0x1070, 8), (0x1077, 8),
      (0x1078, 0x10), (0x107C, 1), (0x107F, 8), (0x1080, 0x20), (0x1084, 1)] :
        List (Nat × UInt8)).lookup address).getD 0 }

def symbolsSymtab : Symtab := ⟨0x20, 24, 0x40, 2, 0x60, 3⟩

def symbolsDySymtab : DySymtab :=
  { looseDySymtab with
    numExternalSymbols := 2
    externalRelocationsOffset := 0x70
    numExternalRelocations := 2
    localRelocationsOffset := 0x80
    numOfLocalRelocations := 1 }

def symbolsTables : Symtabs :=
  ⟨symbolsSymtab, some symbolsDySymtab, 0x1040, 0x1060, 0x1080, 0x1070⟩

/-- The second external relocation names the symbol `a`; the local one is met behind both. -/
theorem internalInitialiseSymtabs_tables_plain :
    machoGetSymbolByExternRelocationOffset symbolsFile symbolsTables 0x10 =
        ⟨some (some 0x1050), [0x1070, 0x1078]⟩ ∧
      machoGetSymbolName symbolsFile symbolsTables 0x1050 = some 0x1061 ∧
      NameInside symbolsFile symbolsTables 0x1061 ∧
      (machoGetSymbolByRelocationOffset symbolsFile symbolsTables (2 ^ 64) 0x20).reads =
        [0x1070, 0x1078, 0x1080] ∧
      ∀ place ∈ [0x1070, 0x1078, 0x1080], EntryInside symbolsFile symbolsTables place := by
  obtain ⟨_, names, _, reads⟩ := @internalInitialiseSymtabs_tables symbolsFile symbolsSymtab
    (some symbolsDySymtab) symbolsTables rfl
  have placed : Placed symbolsTables := by
    rintro table ⟨⟩
    exact ⟨fun _ => by decide, fun _ => by decide⟩
  have named : machoGetSymbolName symbolsFile symbolsTables 0x1050 = some 0x1061 := by decide
  have read : (machoGetSymbolByRelocationOffset symbolsFile symbolsTables (2 ^ 64) 0x20).reads =
      [0x1070, 0x1078, 0x1080] := by decide
  refine ⟨by rfl, named, names _ _ named, read, fun place member => ?_⟩
  exact reads placed (2 ^ 64) 0x20 place (.inr (read ▸ member))

end Safety

end OpenCore.MachoSymbols
