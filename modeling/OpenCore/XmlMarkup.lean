import OpenCore.XmlSteps

/-!
Derivations of the document grammar as data: a `Markup` is an element as it is
written, with the whitespace and control sequences the tree forgets. A parse
whose closing tags are plain and which never carries on behind a broken child
has read a markup, and its tree is the tree of that markup.
-/

namespace OpenCore.XmlMarkup

open ByteBuffer XmlText XmlParse XmlGrammar XmlSteps

mutual

inductive Markup where
  | selfClosing (tag : TagText)
  | textual (tag : TagText) (before text after closing : Bytes)
  | nested (tag : TagText) (children : Markups) (trailing closing : Bytes)

inductive Markups where
  | nil
  | cons (lead : Bytes) (element : Markup) (rest : Markups)

end

def closingText (name closing : Bytes) : TagText := ⟨name, closing, []⟩

mutual

def Markup.text : Markup → Bytes
  | .selfClosing tag => lt :: (tag.bytes ++ tagEnd true)
  | .textual tag before text after closing =>
    lt :: (tag.bytes ++ (tagEnd false ++ (before ++ (text ++ (after ++
      (closingPrefix false ++ ((closingText tag.name closing).bytes ++ [gt])))))))
  | .nested tag children trailing closing =>
    lt :: (tag.bytes ++ (tagEnd false ++ (children.text ++ (trailing ++
      (closingPrefix false ++ ((closingText tag.name closing).bytes ++ [gt]))))))

def Markups.text : Markups → Bytes
  | .nil => []
  | .cons lead element rest => lead ++ (element.text ++ rest.text)

end

mutual

def Markup.tree : Markup → Tree
  | .selfClosing tag => .mk tag.name tag.attributes? none []
  | .textual tag _ text _ _ => .mk tag.name tag.attributes? (some text) []
  | .nested tag children _ _ => .mk tag.name tag.attributes? none children.trees

def Markups.trees : Markups → List Tree
  | .nil => []
  | .cons _ element rest => element.tree :: rest.trees

end

structure Opening (named : Bool) (tag : TagText) : Prop where
  formed : tag.WellFormed
  element : xmlParserPeek tag.name 0 ≠ question ∧ xmlParserPeek tag.name 0 ≠ exclamation
  named : named = true → tag.name ≠ []

mutual

def Markup.WellFormed (named : Bool) : Markup → Prop
  | .selfClosing tag => Opening true tag
  | .textual tag before text after closing =>
    Opening named tag ∧ Spaces before ∧ Content text ∧ Spaces after ∧
      (closingText tag.name closing).WellFormed
  | .nested tag children trailing closing =>
    Opening named tag ∧ children.WellFormed named ∧ Controls trailing ∧
      (closingText tag.name closing).WellFormed

def Markups.WellFormed (named : Bool) : Markups → Prop
  | .nil => True
  | .cons lead element rest =>
    Controls lead ∧ element.WellFormed named ∧ rest.WellFormed named

end

def Markups.count : Markups → Nat
  | .nil => 0
  | .cons _ _ rest => rest.count + 1

mutual

def Markup.Fits (level : Nat) : Markup → Prop
  | .selfClosing _ => True
  | .textual _ _ _ _ _ => True
  | .nested _ children _ _ => level + 1 ≤ xmlParserNestLevel ∧
      children.count ≤ xmlParserNodeCount ∧ children.Fit (level + 1)

def Markups.Fit (level : Nat) : Markups → Prop
  | .nil => True
  | .cons _ element rest => element.Fits level ∧ rest.Fit level

end

/-- The branches of the parser that keep to the grammar: with `named` an element
has a name, nothing but whitespace stands behind the name in a closing tag and
nothing before its `/`, and a parent carries on only at a closing tag. -/
def Strict (named : Bool) : XmlEvent → Prop
  | .opened name => named = true → name ≠ []
  | .closed unprefixed text => ∃ name closing rest, (closingText name closing).WellFormed ∧
      text = closingPrefix unprefixed ++ ((closingText name closing).bytes ++ gt :: rest)
  | .recovered failure _ _ _ _ => failure = .childEnd

theorem trees_append (front back : List ParsedNode) :
    ParsedNode.trees (front ++ back) = ParsedNode.trees front ++ ParsedNode.trees back := by
  induction front with
  | nil => rfl
  | cons node front ih => simp [ParsedNode.trees, ih]

theorem xmlNodeChildPush_nodes {list pushed : ChildList} {child : ParsedNode}
    (push : xmlNodeChildPush list child = some pushed) : pushed.nodes = list.nodes ++ [child] := by
  simp only [xmlNodeChildPush] at push
  split at push
  · cases push
    rfl
  split at push
  · cases push
  · cases push
    rfl

variable {failure : XmlFailure}

theorem xmlParseTagEnd_failure {opening : Bool} {rest after : Bytes}
    (scanned : xmlParseTagEnd opening rest = (.error failure, after)) : failure ≠ .childEnd := by
  rintro rfl
  simp only [xmlParseTagEnd] at scanned
  repeat' split at scanned
  all_goals cases scanned

variable {parser stopped : XmlParser}

theorem closeNode_failure {opened : Opened} {content : Option Bytes} {children : List ParsedNode}
    {unprefixed : Bool} {number : Option Nat}
    (closed : closeNode opened content children unprefixed number parser =
      (.error failure, stopped)) : failure ≠ .childEnd := by
  have step := closeNode_step opened content children unprefixed number parser
  rw [closed] at step
  generalize shape : ((.error failure, stopped) : Parsed ParsedNode) = result at step
  cases step with
  | unclosed failure' rest scanned =>
    cases shape
    rintro rfl
    rw [xmlParseTagClose] at scanned
    repeat' split at scanned
    all_goals first | cases scanned | exact xmlParseTagEnd_failure scanned rfl
  | mismatch =>
    cases shape
    exact fun same => by cases same
  | rejected =>
    cases shape
    exact fun same => by cases same
  | referenced => cases shape
  | unreferenced => cases shape

theorem xmlParseChildren_failure {parseChild : XmlParser → Parsed ParsedNode} {passes : Nat}
    {list : ChildList}
    (parsed : xmlParseChildren parseChild passes list parser = (.error failure, stopped)) :
    failure ≠ .childEnd := by
  induction passes generalizing list parser with
  | zero => cases parsed; nofun
  | succ passes ih =>
    have step := xmlParseChildren_step parseChild passes list parser
    rw [parsed] at step
    generalize shape : ((.error failure, stopped) : Parsed (ChildList × Bool)) = result at step
    cases step with
    | closing => cases shape
    | recovered => cases shape
    | failed => cases shape; nofun
    | full => cases shape; nofun
    | pushed child next list' => exact ih shape.symm

theorem xmlParseNode_childEnd {depth : Nat}
    (parsed : xmlParseNode depth parser = (.error .childEnd, stopped)) :
    ∃ lead, Controls lead ∧ parser.rest = lead ++ lt :: stopped.rest := by
  cases depth with
  | zero => cases parsed
  | succ depth =>
    have step := xmlParseNode_step depth parser
    rw [parsed] at step
    generalize shape : ((.error .childEnd, stopped) : Parsed ParsedNode) = result at step
    cases step with
    | unopened failure rest scanned =>
      cases shape
      have result := xmlParseTagOpen_result parser.rest
      rw [scanned] at result
      generalize shape : ((.error .childEnd, rest) : Scanned Tag) = scanned' at result
      cases result with
      | failed failure after other => cases shape; exact absurd rfl other
      | childEnd lead inner controls same closing =>
        cases shape
        exact ⟨lead, controls, same⟩
      | opened lead inner controls same opens => exact absurd rfl (xmlParseTagEnd_failure shape.symm)
    | selfClosing => cases shape
    | body tag rest scanned opens =>
      have body := parseBody_step (xmlParseNode depth) (openNode parser tag)
        (enterNode parser tag rest)
      rw [← shape] at body
      generalize shape' : ((.error .childEnd, stopped) : Parsed ParsedNode) = result at body
      cases body with
      | contentless failure rest' textual scanned' =>
        cases shape'
        rw [xmlParseContent] at scanned'
        split at scanned' <;> cases scanned'
      | textual content rest' textual scanned' =>
        exact absurd rfl (closeNode_failure shape'.symm)
      | overflow => cases shape'
      | childless failure stopped' found within children =>
        cases shape'
        exact absurd rfl (xmlParseChildren_failure children)
      | nested list unprefixed ended found within children =>
        exact absurd rfl (closeNode_failure shape'.symm)

section Sound
variable {named : Bool}
variable {parseChild : XmlParser → Parsed ParsedNode} {unprefixed : Bool} {opened : Opened}
  {text : TagText} {parser next : XmlParser} {node : ParsedNode} {spaces : Bytes} {tag : Tag}

/-- What is accepted without a lenient branch is an element of the grammar. -/
def Reads (named : Bool) (parse : XmlParser → Parsed ParsedNode) : Prop :=
  ∀ parser node next, parse parser = (.ok node, next) → 0 ∉ parser.rest →
    (∀ event ∈ next.trace, Strict named event) →
    ∃ lead, ∃ markup : Markup, ∃ spaces, Controls lead ∧ markup.WellFormed named ∧
      Spaces spaces ∧ markup.tree = node.tree ∧
      parser.rest = lead ++ (markup.text ++ (spaces ++ next.rest))

theorem xmlParseTagClose_of_text (formed : text.WellFormed)
    (free : 0 ∉ text.bytes) (unprefixed : Bool) (after : Bytes) :
    xmlParseTagClose unprefixed (closingPrefix unprefixed ++ (text.bytes ++ gt :: after)) =
      (.ok ⟨text.name, none, false⟩, after) := by
  have ended : xmlParseTagEnd false (text.bytes ++ gt :: after) =
      (.ok ⟨text.name, none, false⟩, after) :=
    xmlParseTagEnd_of_text formed free (fun _ => rfl) after
  cases unprefixed
  · exact xmlParseTagClose_prefixed.trans ended
  · exact xmlParseTagClose_unprefixed.trans ended

theorem closing_sound {parser : XmlParser}
    {rest : Bytes} (closing : Closing opened unprefixed parser tag rest)
    (free : 0 ∉ parser.rest) (strict : Strict named (.closed unprefixed parser.rest)) :
    ∃ spaces, (closingText opened.name spaces).WellFormed ∧ parser.rest =
      closingPrefix unprefixed ++ ((closingText opened.name spaces).bytes ++ gt :: rest) := by
  obtain ⟨name, spaces, after, formed, same⟩ := strict
  have unended : 0 ∉ (closingText name spaces).bytes := by
    intro member
    apply free
    rw [same]
    exact List.mem_append_right _ (List.mem_append_left _ member)
  have scanned := xmlParseTagClose_of_text formed unended unprefixed after
  rw [← same, closing.scanned] at scanned
  obtain ⟨sameTag, rfl⟩ := Prod.ext_iff.mp scanned
  have sameName : tag.name = name := by
    cases sameTag
    rfl
  rw [closing.matching, sameName]
  exact ⟨spaces, formed, same⟩

theorem closeNode_sound {content : Option Bytes} {children : List ParsedNode} {number : Option Nat}
    (closed : closeNode opened content children unprefixed number parser = (.ok node, next))
    (free : 0 ∉ parser.rest) (strict : ∀ event ∈ next.trace, Strict named event) :
    node = opened.node content children ∧
      ∃ spaces, (closingText opened.name spaces).WellFormed ∧ parser.rest =
        closingPrefix unprefixed ++ ((closingText opened.name spaces).bytes ++ gt :: next.rest) := by
  obtain ⟨same, tag, rest, closing, rfl, trace⟩ := closeNode_node closed
  have closedStrictly : Strict named (.closed unprefixed parser.rest) := by
    apply strict
    rw [trace]
    exact List.mem_cons_self
  exact ⟨same, closing_sound closing free closedStrictly⟩

theorem free_of_suffix {word rest : Bytes} (behind : rest <:+ word) (free : 0 ∉ word) :
    0 ∉ rest :=
  fun member => free (behind.mem member)

theorem strict_of_suffix {front back : List XmlEvent} (behind : front <:+ back)
    (strict : ∀ event ∈ back, Strict named event) : ∀ event ∈ front, Strict named event :=
  fun event member => strict event (behind.mem member)

def unread (unprefixed : Bool) : Bytes := if unprefixed then [lt] else []

-- The induction is on the passes. Whitespace behind a self closing child is
-- skipped with it, so the loop is read together with some spaces before it.
theorem xmlParseChildren_sound
    (advances : ∀ parser, Advances parser (parseChild parser).2) (reads : Reads named parseChild)
    (ends : ∀ {parser stopped}, parseChild parser = (.error .childEnd, stopped) →
      ∃ lead, Controls lead ∧ parser.rest = lead ++ lt :: stopped.rest)
    {passes : Nat} {list list' : ChildList} {parser ended : XmlParser}
    (parsed : xmlParseChildren parseChild passes list parser = (.ok (list', unprefixed), ended))
    (free : 0 ∉ parser.rest) (strict : ∀ event ∈ ended.trace, Strict named event) (all : Spaces spaces) :
    ∃ markups : Markups, ∃ trailing, markups.WellFormed named ∧ Controls trailing ∧
      ParsedNode.trees list'.nodes = ParsedNode.trees list.nodes ++ markups.trees ∧
      spaces ++ parser.rest = markups.text ++ (trailing ++ (unread unprefixed ++ ended.rest)) := by
  induction passes generalizing list parser spaces with
  | zero => cases parsed
  | succ passes ih =>
    have step := xmlParseChildren_step parseChild passes list parser
    rw [parsed] at step
    generalize shape : ((.ok (list', unprefixed), ended) : Parsed (ChildList × Bool)) = result
      at step
    cases step with
    | closing found =>
      cases shape
      refine ⟨.nil, spaces, trivial, ?_, by simp [Markups.trees], rfl⟩
      simpa using all.controls .nil
    | recovered failure stopped more failed found =>
      cases shape
      have atEnd : failure = .childEnd := strict _ List.mem_cons_self
      obtain ⟨lead, controls, same⟩ := ends (atEnd ▸ failed)
      refine ⟨.nil, spaces ++ lead, trivial, all.controls controls, by simp [Markups.trees], ?_⟩
      simp [Markups.text, unread, same]
    | failed => cases shape
    | full => cases shape
    | pushed child next list'' more accepted push =>
      have later := xmlParseChildren_advances advances passes list'' next
      rw [← shape] at later
      have advanced := advances parser
      rw [accepted] at advanced
      obtain ⟨lead, markup, gap, controls, formed, gapSpaces, tree, same⟩ :=
        reads parser child next accepted free (strict_of_suffix later.trace strict)
      obtain ⟨markups, trailing, formed', controls', trees, same'⟩ :=
        ih shape.symm (free_of_suffix advanced.rest free) gapSpaces
      refine ⟨.cons (spaces ++ lead) markup markups, trailing,
        ⟨all.controls controls, formed, formed'⟩, controls', ?_, ?_⟩
      · rw [trees, xmlNodeChildPush_nodes push, trees_append]
        simp [ParsedNode.trees, Markups.trees, tree]
      · rw [same, same']
        simp [Markups.text]

theorem parseBody_sound
    (advances : ∀ parser, Advances parser (parseChild parser).2) (reads : Reads named parseChild)
    (ends : ∀ {parser stopped}, parseChild parser = (.error .childEnd, stopped) →
      ∃ lead, Controls lead ∧ parser.rest = lead ++ lt :: stopped.rest)
    (parsed : parseBody parseChild opened parser = (.ok node, next)) (free : 0 ∉ parser.rest)
    (strict : ∀ event ∈ next.trace, Strict named event)
    {tag : TagText} (opening : Opening named tag) (name : opened.name = tag.name)
    (attributes : opened.attributes = tag.attributes?) (all : Spaces spaces)
    (stops : StopsAt isAsciiSpace parser.rest) :
    ∃ markup : Markup, markup.WellFormed named ∧ markup.tree = node.tree ∧
      lt :: (tag.bytes ++ (tagEnd false ++ (spaces ++ parser.rest))) =
        markup.text ++ next.rest := by
  have step := parseBody_step parseChild opened parser
  rw [parsed] at step
  generalize shape : ((.ok node, next) : Parsed ParsedNode) = result at step
  cases step with
  | contentless => cases shape
  | textual content rest textual scanned =>
    obtain ⟨after, formed, spaced, split⟩ := xmlParseContent_ok free stops textual scanned
    have behind := xmlParseContent_suffix parser.rest
    rw [scanned] at behind
    obtain ⟨rfl, closing, closingFormed, same⟩ :=
      closeNode_sound shape.symm (free_of_suffix behind free) strict
    rw [name] at closingFormed same
    refine ⟨.textual tag spaces content after closing,
      ⟨opening, all, formed, spaced, closingFormed⟩, ?_, ?_⟩
    · rw [Opened.node, ParsedNode.tree, Markup.tree, name, attributes]
      rfl
    · have same' : rest = _ := same
      rw [split, same']
      simp [Markup.text, closingPrefix]
  | overflow => cases shape
  | childless => cases shape
  | nested list unprefixed ended found within children =>
    have loop := xmlParseChildren_advances advances (parser.rest.length + 1) .absent
      (deeperParser parser)
    rw [children] at loop
    have closed := @closeNode_advances opened none list.nodes unprefixed
      (if list.nodes.isEmpty then ownReference ended.references opened.attributes else none)
      (shallowerParser ended)
    rw [← shape] at closed
    obtain ⟨rfl, closing, closingFormed, same⟩ :=
      closeNode_sound shape.symm (free_of_suffix loop.rest free) strict
    obtain ⟨markups, trailing, formed, controls, trees, split⟩ :=
      xmlParseChildren_sound advances reads ends children free
        (strict_of_suffix closed.trace strict) all
    rw [name] at closingFormed same
    refine ⟨.nested tag markups trailing closing,
      ⟨opening, formed, controls, closingFormed⟩, ?_, ?_⟩
    · rw [Opened.node, ParsedNode.tree, Markup.tree, name, attributes, trees]
      rfl
    · have split' : spaces ++ parser.rest = _ := split
      have same' : ended.rest = _ := same
      rw [split', same']
      cases unprefixed <;> simp [Markup.text, unread, closingPrefix]

theorem peek_bytes (nonempty : text.name ≠ []) (rest : Bytes) :
    xmlParserPeek (text.bytes ++ rest) 0 = xmlParserPeek text.name 0 := by
  obtain ⟨c, more, shape⟩ := List.exists_cons_of_ne_nil nonempty
  simp [TagText.bytes, shape]

theorem bytes_of_unnamed (formed : text.WellFormed) (unnamed : text.name = []) :
    text.bytes = [] := by
  have spaces := formed.named unnamed
  simp [TagText.bytes, unnamed, spaces, formed.separated spaces]

theorem xmlParseTagOpen_sound {rest after : Bytes} (free : 0 ∉ rest)
    (scanned : xmlParseTagOpen rest = (.ok tag, after)) :
    ∃ lead, ∃ text : TagText, Controls lead ∧ Opening tag.selfClosing text ∧
      tag.name = text.name ∧ tag.attributes = text.attributes? ∧
      rest = lead ++ lt :: (text.bytes ++ (tagEnd tag.selfClosing ++ after)) := by
  have result := xmlParseTagOpen_result rest
  rw [scanned] at result
  generalize shape : ((.ok tag, after) : Scanned Tag) = scanned' at result
  cases result with
  | failed => cases shape
  | childEnd => cases shape
  | opened lead inner controls same opens =>
    have innerFree : 0 ∉ inner := free_of_suffix ⟨lead ++ [lt], by simp [same]⟩ free
    obtain ⟨text, formed, split, name, attributes, -⟩ := xmlParseTagEnd_ok innerFree shape.symm
    refine ⟨lead, text, controls, ⟨formed, ?_, ?_⟩, name, attributes, by rw [same, split]⟩
    · by_cases unnamed : text.name = []
      · rw [unnamed]
        decide
      · rw [← peek_bytes unnamed, ← split]
        exact opens.2
    · intro closes unnamed
      apply opens.1
      rw [split, bytes_of_unnamed formed unnamed, closes]
      rfl

theorem xmlParseNode_sound (depth : Nat) : Reads named (xmlParseNode depth) := by
  induction depth with
  | zero => exact fun parser node next parsed => by cases parsed
  | succ depth ih =>
    intro parser node next parsed free strict
    have step := xmlParseNode_step depth parser
    rw [parsed] at step
    generalize shape : ((.ok node, next) : Parsed ParsedNode) = result at step
    cases step with
    | unopened => cases shape
    | selfClosing tag rest scanned closes =>
      cases shape
      obtain ⟨lead, text, controls, opening, name, attributes, same⟩ :=
        xmlParseTagOpen_sound free scanned
      obtain ⟨spaces, all, split⟩ := skip_split rest
      rw [closes] at opening same
      refine ⟨lead, .selfClosing text, spaces, controls, opening, all, ?_, ?_⟩
      · rw [Opened.node, ParsedNode.tree, Markup.tree, openNode, name, attributes]
        rfl
      · have inside : (enterNode parser tag rest).rest = xmlSkipWhitespace rest := rfl
        rw [same, inside, ← split]
        simp [Markup.text]
    | body tag rest scanned opens =>
      obtain ⟨lead, text, controls, opening, name, attributes, same⟩ :=
        xmlParseTagOpen_sound free scanned
      obtain ⟨spaces, all, split⟩ := skip_split rest
      have entered := enterNode_advances scanned
      have later := parseBody_advances (xmlParseNode_advances depth) (openNode parser tag)
        (enterNode parser tag rest)
      rw [← shape] at later
      have opened : Strict named (.opened tag.name) := strict _ (later.trace.mem List.mem_cons_self)
      obtain ⟨markup, formed, tree, whole⟩ :=
        parseBody_sound (xmlParseNode_advances depth) ih xmlParseNode_childEnd shape.symm
          (free_of_suffix entered.rest free) strict
          ⟨opening.formed, opening.element, name ▸ opened⟩ name attributes all
          (stopsAt_dropWhile isAsciiSpace rest)
      refine ⟨lead, markup, [], controls, formed, List.forall_mem_nil _, tree, ?_⟩
      have inside : (enterNode parser tag rest).rest = xmlSkipWhitespace rest := rfl
      rw [inside, ← split] at whole
      rw [same, opens, List.nil_append, ← whole]

end Sound

end OpenCore.XmlMarkup
