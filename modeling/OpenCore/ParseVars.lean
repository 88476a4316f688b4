import OpenCore.AddressSpace
import OpenCore.Base

/-!
`OcParseVars`, the parser of load options and shell variables. It rewrites its string in
place: the end of a name and of a value becomes a terminator, and an escape or a quote is
dropped by shifting what precedes it in the token. The string is bytes in memory, read
and written by the width of its characters; every access is recorded.
-/

namespace OpenCore.ParseVars

open Base AddressSpace

inductive StringFormat where
  | ascii
  | unicode
  deriving DecidableEq

def StringFormat.width : StringFormat → Nat
  | .ascii => 1
  | .unicode => 2

inductive ParseVarsState where
  | whiteSpace
  | comment
  | name
  | value
  | quotedValue
  | shellExpansion
  deriving DecidableEq

structure ParsedVar where
  name : Option Nat
  value : Option Nat

structure Access where
  address : Nat
  size : Nat

structure Parser where
  memory : Memory
  pos : Nat
  state : ParseVarsState
  pushState : ParseVarsState
  retake : Bool
  quoteChar : Nat
  name : Option Nat
  value : Option Nat
  originalValue : Option Nat
  parsedVars : List ParsedVar
  accesses : List Access

structure Outcome where
  status : EfiStatus
  memory : Memory
  parsedVars : List ParsedVar
  accesses : List Access

structure Allocations where
  array : Bool
  item : Nat → Bool

def charNull : Nat := 0
def hash : Nat := 0x23
def equalsSign : Nat := 0x3D
def singleQuote : Nat := 0x27
def doubleQuote : Nat := 0x22
def backslash : Nat := 0x5C
def dollar : Nat := 0x24
def backquote : Nat := 0x60
def lineFeed : Nat := 0x0A

def ocIsSpace (ch : Nat) : Bool :=
  ch == 0x20 || ch == 0x09 || ch == 0x0D || ch == 0x0A || ch == 0x0B || ch == 0x0C

def ocIsSpaceOrNull (ch : Nat) : Bool := ch == charNull || ocIsSpace ch

/-- A character in `Ch`. The sign of `CHAR8` plays no part: no character the parser knows
is above 127. -/
def charAt (format : StringFormat) (memory : Memory) (pos : Nat) : Nat :=
  load memory format.width pos

namespace Parser
variable (format : StringFormat)

def access (parser : Parser) (address size : Nat) : Parser :=
  { parser with accesses := parser.accesses ++ [⟨address, size⟩] }

def shiftToken (parser : Parser) : Parser :=
  match parser.value with
  | none => parser
  | some token =>
    let length := parser.pos - token
    let copied := (parser.access token length).access (token + format.width) length
    { copied with
      memory := copyMem parser.memory (token + format.width) token length
      value := some (token + format.width) }

def terminate (parser : Parser) : Parser :=
  { parser.access parser.pos format.width with
    memory := store parser.memory format.width parser.pos charNull }

def addItem (allocations : Allocations) (parser : Parser) : Except Parser Parser :=
  if allocations.item parser.parsedVars.length then
    .ok { parser with parsedVars := parser.parsedVars ++ [⟨none, none⟩] }
  else .error parser

def setOption (parser : Parser) (change : ParsedVar → ParsedVar) : Parser :=
  { parser with parsedVars := parser.parsedVars.modifyLast change }

def inWhiteSpace (tokensOnly : Bool) (allocations : Allocations) (ch : Nat) (parser : Parser) :
    Except Parser Parser :=
  if ch = hash then .ok { parser with state := .comment }
  else if ocIsSpaceOrNull ch then .ok parser
  else if tokensOnly then
    (parser.addItem allocations).map fun parser =>
      { parser with
        state := .value
        value := some parser.pos
        originalValue := some parser.pos
        retake := true }
  else .ok { parser with state := .name, name := some parser.pos }

def inComment (ch : Nat) (parser : Parser) : Parser :=
  if ch = lineFeed then { parser with state := .whiteSpace } else parser

def endName (ch : Nat) (parser : Parser) : Parser :=
  if ch = equalsSign then
    { parser.terminate format with
      state := .value
      value := some (parser.pos + format.width)
      originalValue := some (parser.pos + format.width) }
  else { parser.terminate format with state := .whiteSpace }

def inName (allocations : Allocations) (ch : Nat) (parser : Parser) : Except Parser Parser :=
  if ch = equalsSign ∨ ocIsSpaceOrNull ch then
    ((parser.endName format ch).addItem allocations).map fun added =>
      { added.setOption fun option => { option with name := added.name } with name := none }
  else .ok parser

def inShellExpansion (ch : Nat) (parser : Parser) : Parser :=
  if ch = backquote then { parser with state := parser.pushState } else parser

def endValue (parser : Parser) : Parser :=
  let ended :=
    if some parser.pos = parser.originalValue then parser
    else if parser.pushState ≠ .whiteSpace then { parser with pushState := .whiteSpace }
    else
      let terminated := parser.terminate format
      terminated.setOption fun option => { option with value := terminated.value }
  { ended with value := none, originalValue := none, state := .whiteSpace }

def inValue (ch : Nat) (parser : Parser) : Nat × Parser :=
  if parser.state ≠ .quotedValue ∧ (ch = singleQuote ∨ ch = doubleQuote) then
    (ch, { { parser with quoteChar := ch }.shiftToken format with state := .quotedValue })
  else if parser.state = .quotedValue ∧ ch = parser.quoteChar then
    (ch, { parser.shiftToken format with quoteChar := charNull, state := .value })
  else if (parser.state ≠ .quotedValue ∨ parser.quoteChar = doubleQuote) ∧ ch = backslash then
    let newPos := parser.pos + format.width
    -- The source reads the next character from the old cursor.
    let newCh := charAt format parser.memory parser.pos
    let looked := parser.access parser.pos format.width
    if parser.state ≠ .quotedValue ∨ newCh = doubleQuote ∨ newCh = backslash ∨ newCh = dollar ∨
        newCh = backquote then
      (newCh, { looked.shiftToken format with pos := newPos })
    else (ch, looked)
  else if ch = backquote then
    (ch, { parser with pushState := parser.state, state := .shellExpansion })
  else if parser.state = .value ∧ ocIsSpaceOrNull ch then (ch, parser.endValue format)
  else (ch, parser)

def inState (tokensOnly : Bool) (allocations : Allocations) (ch : Nat) (parser : Parser) :
    Except Parser (Nat × Parser) :=
  match parser.state with
  | .whiteSpace => (parser.inWhiteSpace tokensOnly allocations ch).map (ch, ·)
  | .comment => .ok (ch, parser.inComment ch)
  | .name => (parser.inName format allocations ch).map (ch, ·)
  | .shellExpansion => .ok (ch, parser.inShellExpansion ch)
  | .value | .quotedValue => .ok (parser.inValue format ch)

def advance (parser : Parser) : Parser :=
  if parser.retake then { parser with retake := false }
  else { parser with pos := parser.pos + format.width }

def turn (tokensOnly : Bool) (allocations : Allocations) (parser : Parser) :
    Except Parser (Nat × Parser) :=
  ((parser.access parser.pos format.width).inState format tokensOnly allocations
    (charAt format parser.memory parser.pos)).map fun (ch, parser) => (ch, parser.advance format)

def fail (status : EfiStatus) (parser : Parser) : Outcome :=
  ⟨status, parser.memory, [], parser.accesses⟩

def conclude (parser : Parser) : Outcome :=
  if parser.state ≠ .whiteSpace ∨ parser.pushState ≠ .whiteSpace then
    parser.fail .invalidParameter
  else if parser.parsedVars.isEmpty then parser.fail .notFound
  else ⟨.success, parser.memory, parser.parsedVars, parser.accesses⟩

def run (tokensOnly : Bool) (allocations : Allocations) : Nat → Parser → Option Outcome
  | 0, _ => none
  | fuel + 1, parser =>
    match parser.turn format tokensOnly allocations with
    | .error stopped => some (stopped.fail .outOfResources)
    | .ok (ch, next) =>
      if ch = charNull then some next.conclude else next.run tokensOnly allocations fuel

end Parser

def start (format : StringFormat) (memory : Memory) (strVars : Nat) : Parser where
  memory := memory
  pos := strVars
  state := .whiteSpace
  pushState := .whiteSpace
  retake := false
  quoteChar := charNull
  name := none
  value := none
  originalValue := none
  parsedVars := []
  accesses := [⟨strVars, format.width⟩]

def ocParseVars (fuel : Nat) (allocations : Allocations) (memory : Memory)
    (strVars : Option Nat) (format : StringFormat) (tokensOnly : Bool) : Option Outcome :=
  match strVars with
  | none => some ⟨.notFound, memory, [], []⟩
  | some address =>
    let parser := start format memory address
    if charAt format memory address = charNull then some (parser.fail .notFound)
    else if allocations.array then parser.run format tokensOnly allocations fuel
    else some (parser.fail .outOfResources)

end OpenCore.ParseVars
