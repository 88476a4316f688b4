import OpenCore.TracedAction
import Mathlib.Tactic.Ring

/-!
The parser context of OcAcpiLib: the cursor into the table, the position in the
lookup path, the macros that check and move them. The table and the path are
total functions, so that a read behind their ends has a value too; every read,
every move of the cursor, every entry check, every call and return of a parser
leaves a mark. The verbose prints of `CONTEXT_ENTER` and `PRINT_ACPI_NAME` are
left out.
-/

namespace OpenCore.AcpiContext

open TracedAction

inductive Status where
  | success
  | notFound
  | deviceError
  | outOfResources
  | loadError
  | invalidParameter
  deriving DecidableEq

inductive Exit where
  | returned (status : Status)
  | exhausted

/-- What a lookup does not change. Offsets count from `TableStart`, identifiers
from `PathStart`. -/
structure Lookup where
  table : Nat → UInt8
  tableEnd : Nat
  path : Nat → UInt32
  pathEnd : Nat
  requiredEntry : Nat

inductive ParserName where
  | nameString
  | pkgLength
  | aliasName
  | scopeOrDevice
  | name
  | bankField
  | createField
  | external
  | opRegion
  | powerRes
  | processor
  | thermalZone
  | method
  | ifElse
  | event
  | field
  | indexField
  | mutex
  | term
  deriving DecidableEq

structure Context where
  currentOpcode : Nat
  currentIdentifier : Nat
  nesting : Nat
  entriesFound : Nat
  result : Nat

/-- The first six are observations of a run. The others mark the steps where
the code goes on without a check. -/
inductive Mark where
  | tableRead (offset : Nat)
  | pathRead (identifier : Nat)
  | moved (opcode : Nat)
  | entered (opcode identifier entriesFound : Nat)
  /-- A parser is called at this nesting. -/
  | called (parser : ParserName) (nesting : Nat)
  /-- The parser called last that was not left yet returns. -/
  | left (status : Status)
  /-- The header of a table without a given length is read. -/
  | headerLength
  /-- A term of the table itself is parsed. -/
  | search
  /-- A created field is compared with the identifier behind this one. -/
  | compareNext (identifier : Nat)
  /-- A failed term of an If or Else body is skipped by one byte from here. -/
  | skip (opcode : Nat)
  /-- Parsing of an If or Else body goes on behind a failed term. -/
  | resume (identifier entriesFound : Nat)
  /-- A further term of an If or Else body follows the failed one that starts
  here. -/
  | goesOn (term : Nat)
  deriving DecidableEq

/-- Reads inside the table and the path, the cursor inside the table, work at
every entry. -/
def Mark.Allowed (lookup : Lookup) : Mark → Prop
  | .tableRead offset => offset < lookup.tableEnd
  | .pathRead identifier => identifier < lookup.pathEnd
  | .moved opcode => opcode ≤ lookup.tableEnd
  | .entered opcode identifier entriesFound =>
    opcode < lookup.tableEnd ∧ identifier < lookup.pathEnd ∧ 0 < lookup.requiredEntry ∧
      entriesFound < lookup.requiredEntry
  | _ => True

def Mark.Meets (lookup : Lookup) : Mark → Prop
  | .headerLength => 8 ≤ lookup.tableEnd
  | .search => 0 < lookup.requiredEntry
  | .compareNext identifier => identifier + 1 < lookup.pathEnd
  | .skip opcode => opcode < lookup.tableEnd
  | .resume identifier entriesFound =>
    identifier < lookup.pathEnd ∧ entriesFound < lookup.requiredEntry
  | _ => True

instance (lookup : Lookup) : DecidablePred (Mark.Allowed lookup) := fun mark =>
  match mark with
  | .tableRead _ | .pathRead _ => Nat.decLt _ _
  | .moved _ => Nat.decLe _ _
  | .entered _ _ _ => inferInstanceAs (Decidable (_ ∧ _))
  | .called _ _ | .left _ | .headerLength | .search | .compareNext _ | .skip _ | .resume _ _
  | .goesOn _ => .isTrue trivial

instance (lookup : Lookup) : DecidablePred (Mark.Meets lookup) := fun mark =>
  match mark with
  | .headerLength => Nat.decLe _ _
  | .search | .compareNext _ | .skip _ => Nat.decLt _ _
  | .resume _ _ => inferInstanceAs (Decidable (_ ∧ _))
  | .tableRead _ | .pathRead _ | .moved _ | .entered _ _ _ | .called _ _ | .left _ | .goesOn _ =>
    .isTrue trivial

abbrev Parser := Action Context Exit Mark

def identLen : Nat := 4

def maxNesting : Nat := 1024

variable (lookup : Lookup)

def returnStatus {α : Type} (status : Status) : Parser α := Action.exit (.returned status)

def exhausted {α : Type} : Parser α := Action.exit .exhausted

def readTable (offset : Nat) : Parser UInt8 := do
  Action.emit [.tableRead offset]
  pure (lookup.table offset)

def currentByte : Parser UInt8 := do
  let context ← Action.get
  readTable lookup context.currentOpcode

def readPath (identifier index : Nat) : Parser UInt8 := do
  Action.emit [.pathRead identifier]
  pure (UInt8.ofNat ((lookup.path identifier).toNat / 256 ^ (identLen - index - 1)))

def moveOpcode (opcode : Nat) : Parser Unit := do
  Action.modify fun context => { context with currentOpcode := opcode }
  Action.emit [.moved opcode]

def setIdentifier (identifier : Nat) : Parser Unit :=
  Action.modify fun context => { context with currentIdentifier := identifier }

def contextHasWork : Parser Unit := do
  let context ← Action.get
  Action.emit [.entered context.currentOpcode context.currentIdentifier context.entriesFound]

def contextIncreaseNesting (parser : ParserName) : Parser Unit := do
  let entry ← Action.get
  Action.emit [.called parser entry.nesting]
  Action.modify fun context => { context with nesting := (context.nesting + 1) % 2 ^ 32 }
  let context ← Action.get
  if maxNesting < context.nesting then returnStatus .outOfResources else pure ()

def contextDecreaseNesting : Parser Unit :=
  Action.modify fun context => { context with nesting := (context.nesting + (2 ^ 32 - 1)) % 2 ^ 32 }

def remaining (opcode : Nat) : Nat := (lookup.tableEnd + 2 ^ 32 - opcode) % 2 ^ 32

theorem remaining_eq {lookup : Lookup} {opcode : Nat} (fits : lookup.tableEnd < 2 ^ 32)
    (inside : opcode ≤ lookup.tableEnd) : remaining lookup opcode = lookup.tableEnd - opcode := by
  rw [remaining]
  omega

def deviceErrorIf (condition : Bool) : Parser Unit :=
  if condition then returnStatus .deviceError else pure ()

def contextPeekBytes (bytes : Nat) : Parser Unit := do
  let context ← Action.get
  deviceErrorIf (remaining lookup context.currentOpcode < bytes)

def contextConsumeBytes (bytes : Nat) : Parser Unit := do
  contextPeekBytes lookup bytes
  let context ← Action.get
  moveOpcode (context.currentOpcode + bytes)

def contextAdvanceOpcode : Parser Unit := do
  let context ← Action.get
  deviceErrorIf (remaining lookup context.currentOpcode ≤ 1)
  moveOpcode (context.currentOpcode + 1)

/-- Marks the status a parser returns; `statusOf` is that of its last line. -/
def leaving {α : Type} (statusOf : α → Status) (body : Parser α) : Parser α :=
  Action.ending
    (fun outcome => match outcome with
      | .ok value => [.left (statusOf value)]
      | .error (.returned status) => [.left status]
      | .error .exhausted => [])
    body

def function (body : Parser Status) : Parser Status :=
  Action.recover
    (fun leave => match leave with
      | .returned status => .ok status
      | .exhausted => .error .exhausted)
    (leaving id body)

def orDeviceError {α : Type} (action : Parser α) : Parser α :=
  Action.recover
    (fun leave => match leave with
      | .returned _ => .error (.returned .deviceError)
      | .exhausted => .error .exhausted)
    action

def countEntry : Parser Bool := do
  Action.modify fun context => { context with entriesFound := (context.entriesFound + 1) % 2 ^ 32 }
  let context ← Action.get
  pure (context.entriesFound == lookup.requiredEntry)

def foundAt (start : Nat) : Parser Status := do
  Action.modify fun context => { context with result := start - 1 }
  pure .success

end OpenCore.AcpiContext
