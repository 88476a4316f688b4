import OpenCore.ByteBuffer
import Mathlib.Data.List.DropRight

/-!
The scanners of `OcXmlLib.c`. A parser is the text it has not consumed yet, so
`XmlParserPeek` reads an element of a list and `XmlParserConsume` drops some.
The NULs the scanners write to end their strings always land behind the
position, hence a string is the slice of the input it starts with, cut at the
first NUL the input itself had there.
-/

namespace OpenCore.XmlText

open ByteBuffer

def lt : UInt8 := 60
def gt : UInt8 := 62
def slash : UInt8 := 47
def question : UInt8 := 63
def exclamation : UInt8 := 33
def dash : UInt8 := 45

def isAsciiSpace (c : UInt8) : Bool :=
  c == 32 || c == 9 || c == 11 || c == 12 || c == 13 || c == 10

def xmlParserPeek (rest : Bytes) (n : Nat) : UInt8 := rest.getD n 0

def xmlSkipWhitespace (rest : Bytes) : Bytes := rest.dropWhile isAsciiSpace

def cString (bytes : Bytes) : Bytes := bytes.takeWhile (· != 0)

/-- Why a function of the parser returned `NULL`, after the messages of
`XML_PARSER_ERROR`. `childEnd` is the silent return on a closing tag. -/
inductive XmlFailure where
  | expectedTagName
  | unexpectedSelfClosing
  | expectedTagEnd
  | expectedOpeningTag
  | childEnd
  | expectedClosingTag
  | content
  | levelOverflow
  | child
  | nodePush
  | tagMismatch
  | reference
  | unfinished
  deriving DecidableEq

abbrev Scanned (α : Type) := Except XmlFailure α × Bytes

structure Tag where
  name : Bytes
  attributes : Option Bytes
  selfClosing : Bool
  deriving DecidableEq

def tagByte (c : UInt8) : Bool := c != slash && c != gt

/-- `XmlParseTagEnd`; only an opening tag passes `SelfClosing` and `Attributes`. -/
def xmlParseTagEnd (opening : Bool) (rest : Bytes) : Scanned Tag :=
  let body := rest.takeWhile tagByte
  let after := rest.dropWhile tagByte
  let name := body.takeWhile (!isAsciiSpace ·)
  let trailing := body.dropWhile (!isAsciiSpace ·)
  let attributes := if opening && !trailing.isEmpty then
    some (cString (xmlSkipWhitespace trailing)) else none
  if name.isEmpty && !trailing.isEmpty then (.error .expectedTagName, rest)
  else if xmlParserPeek after 0 = slash then
    if !opening then (.error .unexpectedSelfClosing, after)
    else if xmlParserPeek after 1 ≠ gt then (.error .expectedTagEnd, after.drop 1)
    else (.ok ⟨cString name, attributes, true⟩, after.drop 2)
  else if xmlParserPeek after 0 ≠ gt then (.error .expectedTagEnd, after)
  else (.ok ⟨cString name, attributes, false⟩, after.drop 1)

def skipControl : Bytes → Bytes
  | [] => []
  | c :: rest => if c = gt then rest else skipControl rest

def skipComment : Bytes → Bytes
  | [] => []
  | c :: rest =>
    if c = dash ∧ xmlParserPeek rest 0 = dash ∧ xmlParserPeek rest 1 = gt then rest.drop 2
    else skipComment rest

def skipSequence (rest : Bytes) : Bytes :=
  if xmlParserPeek rest 0 = exclamation then
    if xmlParserPeek rest 1 = dash ∧ xmlParserPeek rest 2 = dash then skipComment (rest.drop 3)
    else skipControl (rest.drop 1)
  else skipControl rest

-- Every pass of the loop consumes a `<`, which bounds its passes.
def tagOpenLoop : Nat → Bytes → Scanned Tag
  | 0, rest => (.error .unfinished, rest)
  | passes + 1, rest =>
    let start := xmlSkipWhitespace rest
    if xmlParserPeek start 0 ≠ lt then (.error .expectedOpeningTag, start)
    else
      let inner := start.drop 1
      let current := xmlParserPeek inner 0
      if current = slash then (.error .childEnd, inner)
      else if current ≠ question ∧ current ≠ exclamation then xmlParseTagEnd true inner
      else
        let next := skipSequence inner
        if next.isEmpty then xmlParseTagEnd true next else tagOpenLoop passes next

def xmlParseTagOpen (rest : Bytes) : Scanned Tag := tagOpenLoop (rest.length + 1) rest

def xmlParseTagClose (unprefixed : Bool) (rest : Bytes) : Scanned Tag :=
  let start := xmlSkipWhitespace rest
  if unprefixed then
    if xmlParserPeek start 0 ≠ slash then (.error .expectedClosingTag, start)
    else xmlParseTagEnd false (start.drop 1)
  else if xmlParserPeek start 0 ≠ lt then (.error .expectedClosingTag, start)
  else if xmlParserPeek start 1 ≠ slash then (.error .expectedClosingTag, start)
  else xmlParseTagEnd false (start.drop 2)

def xmlParseContent (rest : Bytes) : Scanned Bytes :=
  let start := xmlSkipWhitespace rest
  let text := start.takeWhile (· != lt)
  let after := start.dropWhile (· != lt)
  if xmlParserPeek after 0 ≠ lt then (.error .content, after)
  else (.ok (cString (text.rdropWhile isAsciiSpace)), after.drop 1)

end OpenCore.XmlText
