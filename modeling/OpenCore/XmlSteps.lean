import OpenCore.XmlParse
import OpenCore.XmlGrammar

/-!
What each function of the parser can do, said once: every result of a function
is one of the cases of its step relation, with all that led to it. From these,
no function gives back what it consumed.
-/

namespace OpenCore.XmlSteps

open ByteBuffer XmlText XmlParse XmlGrammar List

structure Closing (opened : Opened) (unprefixed : Bool) (parser : XmlParser) (tag : Tag)
    (rest : Bytes) : Prop where
  scanned : xmlParseTagClose unprefixed parser.rest = (.ok tag, rest)
  matching : opened.name = tag.name

inductive CloseStep (opened : Opened) (content : Option Bytes) (children : List ParsedNode)
    (unprefixed : Bool) (number : Option Nat) (parser : XmlParser) : Parsed ParsedNode → Prop where
  | unclosed (failure : XmlFailure) (rest : Bytes) :
      xmlParseTagClose unprefixed parser.rest = (.error failure, rest) →
      CloseStep opened content children unprefixed number parser
        (.error failure, { parser with rest := rest })
  | mismatch (tag : Tag) (rest : Bytes) :
      xmlParseTagClose unprefixed parser.rest = (.ok tag, rest) → opened.name ≠ tag.name →
      CloseStep opened content children unprefixed number parser
        (.error .tagMismatch, closedParser unprefixed parser rest)
  | rejected (tag : Tag) (rest : Bytes) (references : References) (wanted : Nat) :
      Closing opened unprefixed parser tag rest → parser.references = some references →
      number = some wanted → xmlPushReference references opened.address wanted = none →
      CloseStep opened content children unprefixed number parser
        (.error .reference, closedParser unprefixed parser rest)
  | referenced (tag : Tag) (rest : Bytes) (references pushed : References) (wanted : Nat) :
      Closing opened unprefixed parser tag rest → parser.references = some references →
      number = some wanted → xmlPushReference references opened.address wanted = some pushed →
      CloseStep opened content children unprefixed number parser
        (.ok (opened.node content children),
          { closedParser unprefixed parser rest with references := some pushed })
  | unreferenced (tag : Tag) (rest : Bytes) : Closing opened unprefixed parser tag rest →
      parser.references = none ∨ number = none →
      CloseStep opened content children unprefixed number parser
        (.ok (opened.node content children), closedParser unprefixed parser rest)

theorem closeNode_step (opened : Opened) (content : Option Bytes) (children : List ParsedNode)
    (unprefixed : Bool) (number : Option Nat) (parser : XmlParser) :
    CloseStep opened content children unprefixed number parser
      (closeNode opened content children unprefixed number parser) := by
  rw [closeNode]
  cases scanned : xmlParseTagClose unprefixed parser.rest with
  | mk outcome rest =>
    cases outcome with
    | error failure => exact .unclosed failure rest scanned
    | ok tag =>
      simp only
      split
      next other => exact .mismatch tag rest scanned other
      next same =>
        have closing : Closing opened unprefixed parser tag rest := ⟨scanned, not_not.mp same⟩
        cases present : parser.references with
        | none => exact .unreferenced tag rest closing (.inl present)
        | some references =>
          cases number with
          | none => exact .unreferenced tag rest closing (.inr rfl)
          | some wanted =>
            simp only
            cases pushed : xmlPushReference references opened.address wanted with
            | none => exact .rejected tag rest references wanted closing present rfl pushed
            | some pushed' =>
              exact .referenced tag rest references pushed' wanted closing present rfl pushed

theorem closeNode_node {opened : Opened} {content : Option Bytes} {children : List ParsedNode}
    {unprefixed : Bool} {number : Option Nat} {parser next : XmlParser} {node : ParsedNode}
    (closed : closeNode opened content children unprefixed number parser = (.ok node, next)) :
    node = opened.node content children ∧
      ∃ tag rest, Closing opened unprefixed parser tag rest ∧ next.rest = rest ∧
        next.trace = .closed unprefixed parser.rest :: parser.trace := by
  have step := closeNode_step opened content children unprefixed number parser
  rw [closed] at step
  generalize shape : ((.ok node, next) : Parsed ParsedNode) = result at step
  cases step with
  | unclosed => cases shape
  | mismatch => cases shape
  | rejected => cases shape
  | referenced tag rest references pushed wanted closing =>
    cases shape
    exact ⟨rfl, tag, rest, closing, rfl, rfl⟩
  | unreferenced tag rest closing =>
    cases shape
    exact ⟨rfl, tag, rest, closing, rfl, rfl⟩

section Steps
variable (parseChild : XmlParser → Parsed ParsedNode)

inductive ChildrenStep (passes : Nat) (list : ChildList) (parser : XmlParser) :
    Parsed (ChildList × Bool) → Prop where
  | closing : xmlParserPeek parser.rest 1 = slash →
      ChildrenStep passes list parser (.ok (list, false), parser)
  | recovered (failure : XmlFailure) (stopped : XmlParser) :
      xmlParserPeek parser.rest 1 ≠ slash →
      parseChild parser = (.error failure, stopped) → xmlParserPeek stopped.rest 0 = slash →
      ChildrenStep passes list parser (.ok (list, true), { stopped with
        trace := .recovered failure parser.references stopped.references parser.nodes
          stopped.nodes :: stopped.trace })
  | failed (failure : XmlFailure) (stopped : XmlParser) :
      xmlParserPeek parser.rest 1 ≠ slash →
      parseChild parser = (.error failure, stopped) → xmlParserPeek stopped.rest 0 ≠ slash →
      ChildrenStep passes list parser (.error .child, stopped)
  | full (child : ParsedNode) (next : XmlParser) : xmlParserPeek parser.rest 1 ≠ slash →
      parseChild parser = (.ok child, next) → xmlNodeChildPush list child = none →
      ChildrenStep passes list parser (.error .nodePush, next)
  | pushed (child : ParsedNode) (next : XmlParser) (list' : ChildList) :
      xmlParserPeek parser.rest 1 ≠ slash →
      parseChild parser = (.ok child, next) → xmlNodeChildPush list child = some list' →
      ChildrenStep passes list parser (xmlParseChildren parseChild passes list' next)

theorem xmlParseChildren_step (passes : Nat) (list : ChildList) (parser : XmlParser) :
    ChildrenStep parseChild passes list parser
      (xmlParseChildren parseChild (passes + 1) list parser) := by
  rw [xmlParseChildren]
  split
  next closing => exact .closing closing
  next more =>
    cases parsed : parseChild parser with
    | mk outcome next =>
      cases outcome with
      | error failure =>
        simp only
        split
        next found => exact .recovered failure next more parsed found
        next other => exact .failed failure next more parsed other
      | ok child =>
        simp only
        cases pushed : xmlNodeChildPush list child with
        | none => exact .full child next more parsed pushed
        | some list' => exact .pushed child next list' more parsed pushed

inductive BodyStep (opened : Opened) (parser : XmlParser) : Parsed ParsedNode → Prop where
  | contentless (failure : XmlFailure) (rest : Bytes) : xmlParserPeek parser.rest 0 ≠ lt →
      xmlParseContent parser.rest = (.error failure, rest) →
      BodyStep opened parser (.error failure, { parser with rest := rest })
  | textual (content rest : Bytes) : xmlParserPeek parser.rest 0 ≠ lt →
      xmlParseContent parser.rest = (.ok content, rest) →
      BodyStep opened parser (closeNode opened (some content) [] true
        (ownReference parser.references opened.attributes) { parser with rest := rest })
  | overflow : xmlParserPeek parser.rest 0 = lt → xmlParserNestLevel < parser.level + 1 →
      BodyStep opened parser (.error .levelOverflow, deeperParser parser)
  | childless (failure : XmlFailure) (stopped : XmlParser) : xmlParserPeek parser.rest 0 = lt →
      parser.level + 1 ≤ xmlParserNestLevel →
      xmlParseChildren parseChild (parser.rest.length + 1) .absent (deeperParser parser) =
        (.error failure, stopped) →
      BodyStep opened parser (.error failure, stopped)
  | nested (list : ChildList) (unprefixed : Bool) (ended : XmlParser) :
      xmlParserPeek parser.rest 0 = lt → parser.level + 1 ≤ xmlParserNestLevel →
      xmlParseChildren parseChild (parser.rest.length + 1) .absent (deeperParser parser) =
        (.ok (list, unprefixed), ended) →
      BodyStep opened parser (closeNode opened none list.nodes unprefixed
        (if list.nodes.isEmpty then ownReference ended.references opened.attributes else none)
        (shallowerParser ended))

theorem parseBody_step (opened : Opened) (parser : XmlParser) :
    BodyStep parseChild opened parser (parseBody parseChild opened parser) := by
  rw [parseBody]
  split
  next textual =>
    cases scanned : xmlParseContent parser.rest with
    | mk outcome rest =>
      cases outcome with
      | error failure => exact .contentless failure rest textual scanned
      | ok content => exact .textual content rest textual scanned
  next tagged =>
    have found := not_not.mp tagged
    split
    next exceeds => exact .overflow found exceeds
    next fits =>
      have within := not_lt.mp fits
      cases parsed : xmlParseChildren parseChild (parser.rest.length + 1) .absent
          (deeperParser parser) with
      | mk outcome ended =>
        cases outcome with
        | error failure => exact .childless failure ended found within parsed
        | ok result => exact .nested result.1 result.2 ended found within parsed

end Steps

inductive NodeStep (depth : Nat) (parser : XmlParser) : Parsed ParsedNode → Prop where
  | unopened (failure : XmlFailure) (rest : Bytes) :
      xmlParseTagOpen parser.rest = (.error failure, rest) →
      NodeStep depth parser (.error failure, { parser with rest := rest })
  | selfClosing (tag : Tag) (rest : Bytes) : xmlParseTagOpen parser.rest = (.ok tag, rest) →
      tag.selfClosing = true →
      NodeStep depth parser (.ok ((openNode parser tag).node none []), enterNode parser tag rest)
  | body (tag : Tag) (rest : Bytes) : xmlParseTagOpen parser.rest = (.ok tag, rest) →
      tag.selfClosing = false →
      NodeStep depth parser
        (parseBody (xmlParseNode depth) (openNode parser tag) (enterNode parser tag rest))

theorem xmlParseNode_step (depth : Nat) (parser : XmlParser) :
    NodeStep depth parser (xmlParseNode (depth + 1) parser) := by
  rw [xmlParseNode]
  cases scanned : xmlParseTagOpen parser.rest with
  | mk outcome rest =>
    cases outcome with
    | error failure => exact .unopened failure rest scanned
    | ok tag =>
      simp only
      split
      next closes => exact .selfClosing tag rest scanned closes
      next opens => exact .body tag rest scanned (Bool.eq_false_of_not_eq_true opens)

structure Advances (before after : XmlParser) : Prop where
  rest : after.rest <:+ before.rest
  level : before.level ≤ after.level
  nodes : before.nodes ≤ after.nodes
  trace : before.trace <:+ after.trace

theorem Advances.refl (parser : XmlParser) : Advances parser parser :=
  ⟨suffix_rfl, le_refl _, le_refl _, suffix_rfl⟩

theorem Advances.trans {first second third : XmlParser} (front : Advances first second)
    (back : Advances second third) : Advances first third :=
  ⟨back.rest.trans front.rest, front.level.trans back.level, front.nodes.trans back.nodes,
    front.trace.trans back.trace⟩

theorem Advances.withRest {parser : XmlParser} {rest : Bytes} (behind : rest <:+ parser.rest) :
    Advances parser { parser with rest := rest } :=
  ⟨behind, le_refl _, le_refl _, suffix_rfl⟩

theorem closeNode_advances {opened : Opened} {content : Option Bytes}
    {children : List ParsedNode} {unprefixed : Bool} {number : Option Nat} {parser : XmlParser} :
    Advances parser (closeNode opened content children unprefixed number parser).2 := by
  have step := closeNode_step opened content children unprefixed number parser
  have behind := xmlParseTagClose_suffix unprefixed parser.rest
  have closed : ∀ {tag rest}, xmlParseTagClose unprefixed parser.rest = (.ok tag, rest) →
      Advances parser (closedParser unprefixed parser rest) := by
    intro tag rest scanned
    rw [scanned] at behind
    exact ⟨behind, le_refl _, le_refl _, suffix_cons _ _⟩
  generalize closeNode opened content children unprefixed number parser = result at step
  cases step with
  | unclosed failure rest scanned =>
    rw [scanned] at behind
    exact .withRest behind
  | mismatch tag rest scanned other => exact closed scanned
  | rejected tag rest references wanted closing => exact closed closing.scanned
  | referenced tag rest references pushed wanted closing =>
    have advanced := closed closing.scanned
    exact ⟨advanced.rest, advanced.level, advanced.nodes, advanced.trace⟩
  | unreferenced tag rest closing => exact closed closing.scanned

theorem xmlParseChildren_advances {parseChild : XmlParser → Parsed ParsedNode}
    (child : ∀ parser, Advances parser (parseChild parser).2) (passes : Nat) (list : ChildList)
    (parser : XmlParser) :
    Advances parser (xmlParseChildren parseChild passes list parser).2 := by
  induction passes generalizing list parser with
  | zero => exact .refl parser
  | succ passes ih =>
    have advanced := child parser
    have step := xmlParseChildren_step parseChild passes list parser
    generalize xmlParseChildren parseChild (passes + 1) list parser = result at step
    cases step with
    | closing => exact .refl parser
    | recovered failure stopped more parsed found =>
      rw [parsed] at advanced
      exact ⟨advanced.rest, advanced.level, advanced.nodes, advanced.trace.trans (suffix_cons _ _)⟩
    | failed failure stopped more parsed other =>
      rw [parsed] at advanced
      exact advanced
    | full child next more parsed =>
      rw [parsed] at advanced
      exact advanced
    | pushed child next list' more parsed =>
      rw [parsed] at advanced
      exact advanced.trans (ih list' next)

theorem deeper_advances (parser : XmlParser) : Advances parser (deeperParser parser) :=
  ⟨suffix_rfl, Nat.le_succ _, le_refl _, suffix_rfl⟩

theorem shallower_advances {parser ended : XmlParser}
    (advanced : Advances (deeperParser parser) ended) : Advances parser (shallowerParser ended) :=
  ⟨advanced.rest, Nat.le_sub_of_add_le advanced.level, advanced.nodes, advanced.trace⟩

theorem parseBody_advances {parseChild : XmlParser → Parsed ParsedNode}
    (child : ∀ parser, Advances parser (parseChild parser).2) (opened : Opened)
    (parser : XmlParser) : Advances parser (parseBody parseChild opened parser).2 := by
  have behind := xmlParseContent_suffix parser.rest
  have loop := xmlParseChildren_advances child (parser.rest.length + 1) .absent (deeperParser parser)
  have step := parseBody_step parseChild opened parser
  generalize parseBody parseChild opened parser = result at step
  cases step with
  | contentless failure rest textual scanned =>
    rw [scanned] at behind
    exact .withRest behind
  | textual content rest textual scanned =>
    rw [scanned] at behind
    exact (Advances.withRest behind).trans closeNode_advances
  | overflow => exact deeper_advances parser
  | childless failure stopped found within parsed =>
    rw [parsed] at loop
    exact (deeper_advances parser).trans loop
  | nested list unprefixed ended found within parsed =>
    rw [parsed] at loop
    exact (shallower_advances loop).trans closeNode_advances

theorem enterNode_advances {parser : XmlParser} {tag : Tag} {rest : Bytes}
    (scanned : xmlParseTagOpen parser.rest = (.ok tag, rest)) :
    Advances parser (enterNode parser tag rest) := by
  have behind := xmlParseTagOpen_suffix parser.rest
  rw [scanned] at behind
  exact ⟨(dropWhile_suffix _).trans behind, le_refl _, Nat.le_succ _, suffix_cons _ _⟩

theorem xmlParseNode_advances (depth : Nat) (parser : XmlParser) :
    Advances parser (xmlParseNode depth parser).2 := by
  induction depth generalizing parser with
  | zero => exact .refl parser
  | succ depth ih =>
    have step := xmlParseNode_step depth parser
    generalize xmlParseNode (depth + 1) parser = result at step
    cases step with
    | unopened failure rest scanned =>
      have behind := xmlParseTagOpen_suffix parser.rest
      rw [scanned] at behind
      exact .withRest behind
    | selfClosing tag rest scanned => exact enterNode_advances scanned
    | body tag rest scanned =>
      exact (enterNode_advances scanned).trans (parseBody_advances ih _ _)

theorem xmlParseNode_shorter {depth : Nat} {parser next : XmlParser} {node : ParsedNode}
    (parsed : xmlParseNode depth parser = (.ok node, next)) :
    next.rest.length < parser.rest.length := by
  cases depth with
  | zero => cases parsed
  | succ depth =>
    have step := xmlParseNode_step depth parser
    generalize shape : xmlParseNode (depth + 1) parser = result at step
    have entered : ∀ {tag rest}, xmlParseTagOpen parser.rest = (.ok tag, rest) →
        (enterNode parser tag rest).rest.length < parser.rest.length := fun scanned =>
      (dropWhile_suffix _).length_le.trans_lt (xmlParseTagOpen_shorter scanned)
    cases step with
    | unopened failure rest scanned => cases parsed.symm.trans shape
    | selfClosing tag rest scanned closes =>
      cases parsed.symm.trans shape
      exact entered scanned
    | body tag rest scanned =>
      have later := parseBody_advances (xmlParseNode_advances depth) (openNode parser tag)
        (enterNode parser tag rest)
      rw [← shape, parsed] at later
      exact later.rest.length_le.trans_lt (entered scanned)

end OpenCore.XmlSteps
