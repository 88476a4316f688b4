import OpenCore.AddressSpace
import OpenCore.KextSymbols

/-!
How the table of a kext's symbols is linked, from its Mach-O symbols or from its KXLD state.
The table is allocated for all symbols and filled from both ends: from the bottom by the
symbols that are not C++, from the top by those that are.
-/

namespace OpenCore.SymbolTable

open Base AddressSpace KextSymbols

section Walkers

def cxxPrefix : List UInt8 := [0x5F, 0x5F, 0x5A]

def machoSymbolNameIsCxx (name : AsciiString) : Bool := cxxPrefix.isPrefixOf name.chars

structure Walkers where
  table : List KextSymbol
  walkerBottom : Int
  walkerTop : Int
  numCxxSymbols : Nat

def writeEntry (table : List KextSymbol) (index : Int) (entry : KextSymbol) :
    Option (List KextSymbol) :=
  if 0 ≤ index ∧ index < table.length then some (table.set index.toNat entry) else none

def symbolEntry (value : Nat) (name : AsciiString) : KextSymbol := ⟨value, name, name.length, rfl⟩

def Walkers.place (walkers : Walkers) (entry : KextSymbol) : Option Walkers :=
  if machoSymbolNameIsCxx entry.name then
    (writeEntry walkers.table walkers.walkerTop entry).map fun table =>
      { walkers with
        table := table
        walkerTop := walkers.walkerTop - 1
        numCxxSymbols := walkers.numCxxSymbols + 1 }
  else
    (writeEntry walkers.table walkers.walkerBottom entry).map fun table =>
      { walkers with table := table, walkerBottom := walkers.walkerBottom + 1 }

def walkersOf (table : List KextSymbol) : Walkers := ⟨table, 0, (table.length : Int) - 1, 0⟩

structure LinkedTable where
  linkedSymbolTable : List KextSymbol
  numberOfSymbols : Nat
  numberOfCxxSymbols : Nat

end Walkers

section Macho

structure MachNlist where
  stringIndex : Nat
  type : Nat
  value : Nat

def machNTypeStab : Nat := 0xE0
def machNTypeType : Nat := 0x0E
def machNTypeUndf : Nat := 0x0
def machNTypeIndr : Nat := 0xA

/-- What the scan knows of a kext and its context: the string at an index of its string
table, and how a name is resolved at the first level of its dependencies. -/
structure ScannedKext where
  symbolTable : List MachNlist
  string : Nat → AsciiString
  stringsSize : Nat
  resolveSymbols : Bool
  is32Bit : Bool
  resolved : AsciiString → Option Nat

def MachNlist.discarded (symbol : MachNlist) : Bool :=
  symbol.type &&& machNTypeStab != 0 || symbol.type &&& machNTypeType == machNTypeUndf

def ScannedKext.indirectName (kext : ScannedKext) (symbol : MachNlist) : Option AsciiString :=
  if kext.stringsSize ≤ symbol.value then none else some (kext.string symbol.value)

def ScannedKext.resolvedValue (kext : ScannedKext) (symbol : MachNlist) : Except EfiStatus Nat :=
  match kext.indirectName symbol with
  | none => .error .loadError
  | some name =>
    match kext.resolved name with
    | none => .error .notFound
    | some value => .ok (if kext.is32Bit then value % u32 else value)

def ScannedKext.entry (kext : ScannedKext) (symbol : MachNlist) : Except EfiStatus KextSymbol :=
  if kext.resolveSymbols ∧ symbol.type &&& machNTypeType = machNTypeIndr then
    (kext.resolvedValue symbol).map fun value => symbolEntry value (kext.string symbol.stringIndex)
  else .ok (symbolEntry symbol.value (kext.string symbol.stringIndex))

/-- The loop over the symbols, with how many were discarded. The outer result is missing if
an entry outside the table is written. -/
def ScannedKext.scan (kext : ScannedKext) :
    List MachNlist → Walkers → Nat → Option (Except EfiStatus (Walkers × Nat))
  | [], walkers, numDiscardedSyms => some (.ok (walkers, numDiscardedSyms))
  | symbol :: rest, walkers, numDiscardedSyms =>
    if symbol.discarded then kext.scan rest walkers (numDiscardedSyms + 1)
    else
      match kext.entry symbol with
      | .error status => some (.error status)
      | .ok entry =>
        match walkers.place entry with
        | none => none
        | some walkers => kext.scan rest walkers numDiscardedSyms

def copyEntries (table : List KextSymbol) (destination source count : Nat) :
    Option (List KextSymbol) :=
  if source + count ≤ table.length ∧ destination + count ≤ table.length then
    some (table.take destination ++ (table.drop source).take count ++
      table.drop (destination + count))
  else none

/-- `InternalScanBuildLinkedSymbolTable`, from the table as it was allocated. -/
def internalScanBuildLinkedSymbolTable (kext : ScannedKext) (allocated : Option (List KextSymbol)) :
    Option (Except EfiStatus LinkedTable) :=
  match allocated with
  | none => some (.error .outOfResources)
  | some table =>
    match kext.scan kext.symbolTable (walkersOf table) 0 with
    | none => none
    | some (.error status) => some (.error status)
    | some (.ok (walkers, numDiscardedSyms)) =>
      let numberOfSymbols := kext.symbolTable.length
      if numDiscardedSyms > 0 then
        (copyEntries walkers.table
          (numberOfSymbols - walkers.numCxxSymbols - numDiscardedSyms)
          (numberOfSymbols - walkers.numCxxSymbols) walkers.numCxxSymbols).map fun table =>
            .ok ⟨table, numberOfSymbols - numDiscardedSyms, walkers.numCxxSymbols⟩
      else some (.ok ⟨walkers.table, numberOfSymbols, walkers.numCxxSymbols⟩)

end Macho

section Kxld

structure KxldState where
  memory : Memory
  address : Nat
  size : Nat
  bounded : size < u32

def kxldLinkStateSignature : Nat := 0xF00DD00D
def kxldLinkStateVersion : Nat := 1

def kxldHeaderSize : Nat := 40

def cpuType (is32Bit : Bool) : Nat := if is32Bit then 7 else 0x01000007

def kxldEntrySize (is32Bit : Bool) : Nat := if is32Bit then 12 else 16

def KxldState.field (state : KxldState) (offset : Nat) : Nat :=
  load state.memory 4 (state.address + offset)

def KxldState.hasHeader (state : KxldState) (is32Bit : Bool) : Bool :=
  decide (kxldHeaderSize ≤ state.size) && state.address % 4 == 0 &&
    state.field 0 == kxldLinkStateSignature && state.field 4 == kxldLinkStateVersion &&
    state.field 8 == cpuType is32Bit

def internalGetKxldSymbols (state : KxldState) (is32Bit : Bool) : Option (Nat × Nat) :=
  if state.hasHeader is32Bit then
    let numSymbols := state.field 32
    let symbolOffset := state.field 36
    if numSymbols = 0 then none
    else if symbolOffset % (if is32Bit then 4 else 8) ≠ 0 then none
    else
      match baseOverflowMulAdd u32 numSymbols (kxldEntrySize is32Bit) symbolOffset with
      | none => none
      | some ends => if ends > state.size then none else some (symbolOffset, numSymbols)
  else none

def stringWithin (memory : Memory) : Nat → Nat → Option (List UInt8)
  | 0, _ => none
  | left + 1, address =>
    if memory address = 0 then some []
    else (stringWithin memory left (address + 1)).map (memory address :: ·)

theorem stringWithin_spec {memory : Memory} {left address : Nat} {chars : List UInt8}
    (found : stringWithin memory left address = some chars) :
    (∀ ch ∈ chars, ch ≠ 0) ∧ chars.length < left := by
  induction left generalizing address chars with
  | zero => cases found
  | succ left ih =>
    rw [stringWithin] at found
    split at found
    · cases found
      exact ⟨fun _ member => (by cases member), Nat.succ_pos left⟩
    · rename_i nonzero
      obtain ⟨rest, inner, rfl⟩ := Option.map_eq_some_iff.mp found
      obtain ⟨others, short⟩ := ih inner
      refine ⟨?_, Nat.succ_lt_succ short⟩
      rintro ch (_ | ⟨_, member⟩)
      · exact nonzero
      · exact others ch member

def internalGetKxldString (state : KxldState) (offset : Nat) : Option AsciiString :=
  match found : stringWithin state.memory (state.size - offset) (state.address + offset) with
  | none => none
  | some chars =>
    have spec := stringWithin_spec found
    some ⟨chars, spec.1, lt_of_lt_of_le spec.2
      (le_trans (Nat.sub_le _ _) (le_of_lt state.bounded))⟩

def KxldState.entryAddress (state : KxldState) (is32Bit : Bool) (entry : Nat) : Nat :=
  load state.memory (if is32Bit then 4 else 8) (state.address + entry)

def KxldState.entryName (state : KxldState) (is32Bit : Bool) (entry : Nat) : Option AsciiString :=
  internalGetKxldString state (state.field (entry + if is32Bit then 4 else 8))

def KxldState.scan (state : KxldState) (is32Bit : Bool) :
    Nat → Nat → Walkers → Option (Except EfiStatus Walkers)
  | 0, _, walkers => some (.ok walkers)
  | left + 1, entry, walkers =>
    match state.entryName is32Bit entry with
    | none => some (.error .invalidParameter)
    | some name =>
      match walkers.place (symbolEntry (state.entryAddress is32Bit entry) name) with
      | none => none
      | some walkers => state.scan is32Bit left (entry + kxldEntrySize is32Bit) walkers

/-- `InternalKxldStateBuildLinkedSymbolTable`, from the table as it was allocated for so
many symbols. -/
def internalKxldStateBuildLinkedSymbolTable (state : KxldState) (is32Bit : Bool)
    (allocate : Nat → Option (List KextSymbol)) : Option (Except EfiStatus LinkedTable) :=
  match internalGetKxldSymbols state is32Bit with
  | none => some (.error .unsupported)
  | some (kxldSymbols, numSymbols) =>
    match allocate numSymbols with
    | none => some (.error .outOfResources)
    | some table =>
      (state.scan is32Bit numSymbols kxldSymbols (walkersOf table)).map fun scanned =>
        scanned.map fun walkers => ⟨walkers.table, numSymbols, walkers.numCxxSymbols⟩

end Kxld

end OpenCore.SymbolTable
