import OpenCore.Base
import OpenCore.MarkedSearch

/-!
The symbols of prelinked kexts and how they are looked up, by name or by value, through
the dependencies of a kext. A dependency of the kext is searched in full or for its C++
symbols, and any kext behind it for its C++ symbols only; a flag keeps a lookup from going
through a kext twice, and all flags are reset at the end of a lookup.
-/

namespace OpenCore.KextSymbols

open Base MarkedSearch

section Strings

structure AsciiString where
  chars : List UInt8
  nonzero : ∀ ch ∈ chars, ch ≠ 0
  bounded : chars.length < u32

def AsciiString.length (text : AsciiString) : Nat := text.chars.length

def AsciiString.at (text : AsciiString) (index : Nat) : UInt8 := text.chars.getD index 0

structure KextSymbol where
  value : Nat
  name : AsciiString
  length : Nat
  length_eq : length = name.length

def sameFrom (name lookupValue : AsciiString) : Nat → Nat → Bool
  | 0, _ => true
  | left + 1, index =>
    if name.at index ≠ lookupValue.at index then false
    else sameFrom name lookupValue left (index + 1)

def KextSymbol.hasName (lookupValue : AsciiString) (symbol : KextSymbol) : Bool :=
  symbol.length == lookupValue.length &&
    (symbol.name.at (lookupValue.length / 2) == lookupValue.at (lookupValue.length / 2) &&
      symbol.name.at (lookupValue.length / 2 + 1) == lookupValue.at (lookupValue.length / 2 + 1)) &&
    sameFrom symbol.name lookupValue lookupValue.length 0

end Strings

section Kexts

inductive OcGetSymbolLevel where
  | anyLevel
  | firstLevel
  | onlyCxx
  deriving DecidableEq

/-- `PRELINKED_KEXT`, of which a table of symbols is linked or not. Its C++ symbols are the
last ones of the table. -/
structure PrelinkedKext where
  linkedSymbolTable : Option (List KextSymbol)
  numberOfCxxSymbols : Nat
  dependencies : List Nat
  cxx_le : ∀ table ∈ linkedSymbolTable, numberOfCxxSymbols ≤ table.length

/-- `PRELINKED_CONTEXT`: kexts by their addresses, and the list of those that are cached.
Dependencies are taken from that list, and only for them a table is linked. -/
structure PrelinkedContext where
  kext : Nat → PrelinkedKext
  prelinkedKexts : List Nat
  closed : ∀ address, ∀ dependency ∈ (kext address).dependencies, dependency ∈ prelinkedKexts
  cached : ∀ address, (kext address).linkedSymbolTable.isSome → address ∈ prelinkedKexts

def PrelinkedKext.partStart (kext : PrelinkedKext) (level : OcGetSymbolLevel)
    (table : List KextSymbol) : Nat :=
  if level = .onlyCxx then table.length - kext.numberOfCxxSymbols else 0

def PrelinkedKext.partLength (kext : PrelinkedKext) (level : OcGetSymbolLevel)
    (table : List KextSymbol) : Nat :=
  if level = .onlyCxx then kext.numberOfCxxSymbols else table.length

def PrelinkedKext.part (level : OcGetSymbolLevel) (kext : PrelinkedKext) : List KextSymbol :=
  match kext.linkedSymbolTable with
  | none => []
  | some table => (table.drop (kext.partStart level table)).take (kext.partLength level table)

def findName (lookupValue : AsciiString) (level : OcGetSymbolLevel) (kext : PrelinkedKext) :
    Option KextSymbol :=
  (kext.part level).find? (KextSymbol.hasName lookupValue)

def roundDown16 (value : Nat) : Nat := value - value % 16

/-- The comparisons of a block from a symbol on, of which so many are left. The outer
result is missing if a symbol outside the table is read. -/
def matchSymbols (lookupValue : Nat) (table : List KextSymbol) :
    Nat → Nat → Option (Option KextSymbol)
  | 0, _ => some none
  | left + 1, index =>
    match table[index]? with
    | none => none
    | some symbol =>
      if symbol.value = lookupValue then some (some symbol)
      else matchSymbols lookupValue table left (index + 1)

def matchBlocks (lookupValue : Nat) (table : List KextSymbol) :
    Nat → Nat → Option (Option KextSymbol)
  | 0, _ => some none
  | blocks + 1, index =>
    match matchSymbols lookupValue table 16 index with
    | none => none
    | some (some symbol) => some (some symbol)
    | some none => matchBlocks lookupValue table blocks (index + 16)

/-- The search of a table by value: from the block in which the part begins, as many whole
blocks as the part has. -/
def findValue (lookupValue : Nat) (level : OcGetSymbolLevel) (kext : PrelinkedKext) :
    Option (Option KextSymbol) :=
  match kext.linkedSymbolTable with
  | none => some none
  | some table =>
    matchBlocks lookupValue table (roundDown16 (kext.partLength level table) / 16)
      (roundDown16 (kext.partStart level table))

def PrelinkedContext.next (context : PrelinkedContext) (level : OcGetSymbolLevel) (address : Nat) :
    List Nat :=
  if level = .firstLevel then [] else (context.kext address).dependencies

end Kexts

section Lookups
variable (context : PrelinkedContext)

def internalUnlockContextKexts (processed : Marks Nat) : Marks Nat :=
  fun address => if address ∈ context.prelinkedKexts then false else processed address

/-- `InternalOcGetSymbolWorkerName` and `InternalOcGetSymbolWorkerValue`, by how a kext is
looked through. -/
def internalOcGetSymbolWorker {Found : Type} (look : OcGetSymbolLevel → PrelinkedKext → Option Found)
    (fuel : Nat) (level : OcGetSymbolLevel) (address : Nat) (processed : Marks Nat) :
    Option (Option Found × Marks Nat) :=
  search context.next (fun level address => look level (context.kext address)) .onlyCxx fuel level
    address processed

/-- The search from a kext: of itself if only C++ symbols are asked for and its table is
linked, otherwise of its dependencies in their order. -/
def searchFrom {Found : Type} (look : OcGetSymbolLevel → PrelinkedKext → Option Found) (fuel : Nat)
    (address : Nat) (level : OcGetSymbolLevel) (processed : Marks Nat) :
    Option (Option Found × Marks Nat) :=
  if level = .onlyCxx ∧ (context.kext address).linkedSymbolTable.isSome then
    internalOcGetSymbolWorker context look fuel level address processed
  else
    searchAll (internalOcGetSymbolWorker context look fuel level)
      (context.kext address).dependencies processed

def unlocked {Found : Type} (found : Option Found × Marks Nat) : Option Found × Marks Nat :=
  (found.1, internalUnlockContextKexts context found.2)

def internalOcGetSymbolName (fuel : Nat) (address : Nat) (lookupValue : AsciiString)
    (level : OcGetSymbolLevel) (processed : Marks Nat) :
    Option (Option KextSymbol × Marks Nat) :=
  if lookupValue.length = 0 then some (none, processed)
  else (searchFrom context (findName lookupValue) fuel address level processed).map (unlocked context)

def lookValue (lookupValue : Nat) (level : OcGetSymbolLevel) (kext : PrelinkedKext) :
    Option (Option KextSymbol) :=
  match findValue lookupValue level kext with
  | none => some none
  | some none => none
  | some (some symbol) => some (some symbol)

def internalOcGetSymbolValue (fuel : Nat) (address : Nat) (lookupValue : Nat)
    (level : OcGetSymbolLevel) (processed : Marks Nat) :
    Option (Option (Option KextSymbol) × Marks Nat) :=
  (searchFrom context (lookValue lookupValue) fuel address level processed).map (unlocked context)

end Lookups

end OpenCore.KextSymbols
