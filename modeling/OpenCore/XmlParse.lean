import OpenCore.XmlText
import OpenCore.Plist

/-!
The recursive-descent parser of `OcXmlLib.c`. Nodes are numbered in the order
`XmlNodeCreate` makes them, and a `Real` pointer or a reference is the number of
its node, so that a pointer to a freed node stays distinguishable. Pool memory
is taken to be available. `trace` is a record for the proofs: no branch reads it.
-/

namespace OpenCore.XmlParse

open Base ByteBuffer XmlText
open Plist (ascii asciiStrDecimalToUint64)

def xmlParserNestLevel : Nat := 32
def xmlParserNodeCount : Nat := 32768
def xmlParserMaxReferenceCount : Nat := 32 * 1024
def xmlParserMaxSize : Nat := 32 * 1024 * 1024

inductive ParsedNode where
  | mk (address : Nat) (name : Bytes) (attributes content : Option Bytes) (real : Option Nat)
      (children : List ParsedNode)

inductive Tree where
  | mk (name : Bytes) (attributes content : Option Bytes) (children : List Tree)

namespace ParsedNode

mutual

def tree : ParsedNode → Tree
  | mk _ name attributes content _ children => .mk name attributes content (trees children)

def trees : List ParsedNode → List Tree
  | [] => []
  | node :: rest => node.tree :: trees rest

end

mutual

def addresses : ParsedNode → List Nat
  | mk address _ _ _ _ children => address :: listAddresses children

def listAddresses : List ParsedNode → List Nat
  | [] => []
  | node :: rest => node.addresses ++ listAddresses rest

end

mutual

def reals : ParsedNode → List Nat
  | mk _ _ _ _ real children => real.toList ++ listReals children

def listReals : List ParsedNode → List Nat
  | [] => []
  | node :: rest => node.reals ++ listReals rest

end

end ParsedNode

abbrev References := List (Option Nat)

inductive XmlEvent where
  | opened (name : Bytes)
  | closed (unprefixed : Bool) (text : Bytes)
  /-- A parent carried on at the `/` its child stopped at. The child made the
  nodes from `first` on and turned the references `before` into `after`. -/
  | recovered (failure : XmlFailure) (before after : Option References) (first next : Nat)

structure XmlParser where
  rest : Bytes
  level : Nat
  nodes : Nat
  references : Option References
  trace : List XmlEvent

def asciiStrStr (pattern : Bytes) : Bytes → Option Bytes
  | [] => if pattern.isEmpty then some [] else none
  | c :: rest =>
    if pattern.isPrefixOf (c :: rest) then some (c :: rest) else asciiStrStr pattern rest

def xmlParseAttributeNumber (attributes argument : Bytes) : Option Nat :=
  (asciiStrStr argument attributes).bind fun found =>
    let start := found.drop argument.length
    (asciiStrStr (ascii "\"") start).bind fun stop =>
      let number := start.length - stop.length
      if 15 < number then none
      else some (asciiStrDecimalToUint64 (start.take number) % u32)

/-- `XmlPushReference`: entries between the old count and the new one are `NULL`. -/
def xmlPushReference (references : References) (node number : Nat) : Option References :=
  if xmlParserMaxReferenceCount ≤ number then none
  else some ((references ++ List.replicate (number + 1 - references.length) none).set number
    (some node))

def xmlNodeReal (references : Option References) (attributes : Option Bytes) : Option Nat :=
  references.bind fun entries =>
    attributes.bind fun text =>
      (xmlParseAttributeNumber text (ascii "IDREF=\"")).bind fun number =>
        (entries[number]?).join

def ownReference (references : Option References) (attributes : Option Bytes) : Option Nat :=
  references.bind fun _ =>
    attributes.bind fun text => xmlParseAttributeNumber text (ascii "ID=\"")

structure ChildList where
  nodes : List ParsedNode
  allocCount : Nat

def ChildList.absent : ChildList := ⟨[], 1⟩

def xmlNodeChildPush (list : ChildList) (child : ParsedNode) : Option ChildList :=
  let nodeCount := list.nodes.length
  if 0 < nodeCount ∧ nodeCount < xmlParserNodeCount ∧ nodeCount < list.allocCount then
    some ⟨list.nodes ++ [child], list.allocCount⟩
  else if xmlParserNodeCount - 1 ≤ nodeCount then none
  else some ⟨list.nodes ++ [child], list.allocCount * 3⟩

abbrev Parsed (α : Type) := Except XmlFailure α × XmlParser

section Loop
variable (parseChild : XmlParser → Parsed ParsedNode)

/-- The loop of `XmlParseNode` over the children, with the nodes it pushed and
whether the `<` of the closing tag is consumed. -/
def xmlParseChildren : Nat → ChildList → XmlParser → Parsed (ChildList × Bool)
  | 0, _, parser => (.error .unfinished, parser)
  | passes + 1, list, parser =>
    if xmlParserPeek parser.rest 1 = slash then (.ok (list, false), parser)
    else
      match parseChild parser with
      | (.error failure, stopped) =>
        if xmlParserPeek stopped.rest 0 = slash then
          (.ok (list, true), { stopped with
            trace := .recovered failure parser.references stopped.references parser.nodes
              stopped.nodes :: stopped.trace })
        else (.error .child, stopped)
      | (.ok child, next) =>
        match xmlNodeChildPush list child with
        | none => (.error .nodePush, next)
        | some pushed => xmlParseChildren passes pushed next

end Loop

structure Opened where
  address : Nat
  name : Bytes
  attributes : Option Bytes
  real : Option Nat

def Opened.node (opened : Opened) (content : Option Bytes) (children : List ParsedNode) :
    ParsedNode :=
  .mk opened.address opened.name opened.attributes content opened.real children

def closedParser (unprefixed : Bool) (parser : XmlParser) (rest : Bytes) : XmlParser :=
  { parser with rest := rest, trace := .closed unprefixed parser.rest :: parser.trace }

def deeperParser (parser : XmlParser) : XmlParser := { parser with level := parser.level + 1 }

def shallowerParser (parser : XmlParser) : XmlParser := { parser with level := parser.level - 1 }

/-- The end of `XmlParseNode`: the closing tag and the reference of a node. -/
def closeNode (opened : Opened) (content : Option Bytes) (children : List ParsedNode)
    (unprefixed : Bool) (number : Option Nat) (parser : XmlParser) : Parsed ParsedNode :=
  match xmlParseTagClose unprefixed parser.rest with
  | (.error failure, rest) => (.error failure, { parser with rest := rest })
  | (.ok tag, rest) =>
    let closed := closedParser unprefixed parser rest
    if opened.name ≠ tag.name then (.error .tagMismatch, closed)
    else
      match parser.references, number with
      | some references, some number =>
        match xmlPushReference references opened.address number with
        | none => (.error .reference, closed)
        | some pushed =>
          (.ok (opened.node content children), { closed with references := some pushed })
      | _, _ => (.ok (opened.node content children), closed)

/-- `XmlParseNode` behind the opening tag of an element that is not self closing. -/
def parseBody (parseChild : XmlParser → Parsed ParsedNode) (opened : Opened)
    (parser : XmlParser) : Parsed ParsedNode :=
  if xmlParserPeek parser.rest 0 ≠ lt then
    match xmlParseContent parser.rest with
    | (.error failure, rest) => (.error failure, { parser with rest := rest })
    | (.ok content, rest) =>
      closeNode opened (some content) [] true (ownReference parser.references opened.attributes)
        { parser with rest := rest }
  else
    if xmlParserNestLevel < parser.level + 1 then (.error .levelOverflow, deeperParser parser)
    else
      match xmlParseChildren parseChild (parser.rest.length + 1) .absent (deeperParser parser) with
      | (.error failure, stopped) => (.error failure, stopped)
      | (.ok (list, unprefixed), ended) =>
        closeNode opened none list.nodes unprefixed
          (if list.nodes.isEmpty then ownReference ended.references opened.attributes else none)
          (shallowerParser ended)

def openNode (parser : XmlParser) (tag : Tag) : Opened :=
  ⟨parser.nodes, tag.name, tag.attributes, xmlNodeReal parser.references tag.attributes⟩

def enterNode (parser : XmlParser) (tag : Tag) (rest : Bytes) : XmlParser :=
  { parser with
    rest := xmlSkipWhitespace rest, nodes := parser.nodes + 1,
    trace := .opened tag.name :: parser.trace }

-- The nest level bounds the depth of the recursion.
def xmlParseNode : Nat → XmlParser → Parsed ParsedNode
  | 0, parser => (.error .unfinished, parser)
  | depth + 1, parser =>
    match xmlParseTagOpen parser.rest with
    | (.error failure, rest) => (.error failure, { parser with rest := rest })
    | (.ok tag, rest) =>
      if tag.selfClosing then
        (.ok ((openNode parser tag).node none []), enterNode parser tag rest)
      else parseBody (xmlParseNode depth) (openNode parser tag) (enterNode parser tag rest)

structure XmlDocument where
  length : Nat
  root : ParsedNode
  references : Option References

def initialParser (buffer : Bytes) (withRefs : Bool) : XmlParser where
  rest := buffer
  level := 0
  nodes := 0
  references := if withRefs then some [] else none
  trace := []

def parseRoot (buffer : Bytes) (withRefs : Bool) : Parsed ParsedNode :=
  xmlParseNode (xmlParserNestLevel + 1) (initialParser buffer withRefs)

def xmlDocumentParse (buffer : Bytes) (withRefs : Bool) : Option XmlDocument :=
  if buffer.length = 0 ∨ xmlParserMaxSize < buffer.length then none
  else
    match parseRoot buffer withRefs with
    | (.error _, _) => none
    | (.ok root, parser) => some ⟨buffer.length, root, parser.references⟩

end OpenCore.XmlParse
