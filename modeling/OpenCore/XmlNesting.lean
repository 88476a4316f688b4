import OpenCore.XmlMarkup

/-!
The parser on the text of a markup: it returns the tree of the markup, takes no
lenient branch, and refuses only what nests too deep or has too many children.
With the converse this says exactly when an accepted document is well nested.
-/

namespace OpenCore.XmlNesting

open ByteBuffer XmlText XmlParse XmlGrammar XmlSteps XmlMarkup List

section Words
variable {lead spaces rest : Bytes}

theorem Controls.drop_spaces (controls : Controls (spaces ++ lead)) (all : Spaces spaces) :
    Controls lead := by
  induction spaces with
  | nil => exact controls
  | cons c spaces ih =>
    have space := all c mem_cons_self
    rw [cons_append] at controls
    generalize shape : c :: (spaces ++ lead) = word at controls
    cases controls with
    | nil => cases shape
    | space _ behind =>
      cases shape
      exact ih behind fun d member => all d (mem_cons_of_mem _ member)
    | instruction =>
      rw [(List.cons.inj shape).1] at space
      exact absurd space (by decide)
    | declaration =>
      rw [(List.cons.inj shape).1] at space
      exact absurd space (by decide)
    | comment =>
      rw [(List.cons.inj shape).1] at space
      exact absurd space (by decide)

theorem split_spaces (all : Spaces spaces) {word : Bytes}
    (same : spaces ++ rest = lead ++ lt :: word) :
    ∃ lead', lead = spaces ++ lead' ∧ rest = lead' ++ lt :: word := by
  induction spaces generalizing lead with
  | nil => exact ⟨lead, rfl, same⟩
  | cons c spaces ih =>
    cases lead with
    | nil =>
      cases same
      exact absurd (all lt mem_cons_self) (by decide)
    | cons d lead =>
      injection same with first same
      obtain ⟨lead', split, behind⟩ := ih (fun d member => all d (mem_cons_of_mem _ member)) same
      exact ⟨lead', by rw [first, split, cons_append], behind⟩

theorem space_not_slash {c : UInt8} (space : isAsciiSpace c) : c ≠ slash := by
  rintro rfl
  exact absurd space (by decide)

theorem peek_controls (controls : Controls lead) (word : Bytes) :
    xmlParserPeek (lead ++ lt :: word) 0 ≠ slash := by
  cases controls with
  | nil => exact (by decide : lt ≠ slash)
  | space space _ => exact space_not_slash space
  | instruction => exact (by decide : lt ≠ slash)
  | declaration => exact (by decide : lt ≠ slash)
  | comment => exact (by decide : lt ≠ slash)

theorem peek_controls_next (controls : Controls lead) (nonempty : lead ≠ []) (word : Bytes) :
    xmlParserPeek (lead ++ lt :: word) 1 ≠ slash := by
  cases controls with
  | nil => exact absurd rfl nonempty
  | space _ behind => exact peek_controls behind word
  | instruction => exact (by decide : question ≠ slash)
  | declaration => exact (by decide : exclamation ≠ slash)
  | comment => exact (by decide : exclamation ≠ slash)

theorem peek_skipped (controls : Controls lead) (word : Bytes) :
    xmlParserPeek (xmlSkipWhitespace (lead ++ lt :: word)) 0 = lt := by
  induction controls with
  | nil =>
    rw [nil_append, skip_of_stopsAt (lt_stops word)]
    rfl
  | space space _ ih =>
    rw [cons_append, xmlSkipWhitespace, dropWhile_cons_of_pos space]
    exact ih
  | instruction =>
    rw [cons_append, skip_of_stopsAt (lt_stops _)]
    rfl
  | declaration =>
    rw [cons_append, skip_of_stopsAt (lt_stops _)]
    rfl
  | comment =>
    rw [cons_append, skip_of_stopsAt (lt_stops _)]
    rfl

end Words

def Grown (list : ChildList) : Prop :=
  ∃ k, list.allocCount = 3 ^ k ∧ list.nodes.length ≤ list.allocCount

theorem absent_grown : Grown .absent := ⟨0, rfl, Nat.zero_le _⟩

theorem three_pow_ne (k : Nat) : 3 ^ k ≠ xmlParserNodeCount - 1 := by
  cases k with
  | zero => decide
  | succ k =>
    intro same
    have divided : 3 ∣ xmlParserNodeCount - 1 := same ▸ Dvd.intro_left (3 ^ k) rfl
    exact absurd divided (by decide)

theorem xmlNodeChildPush_room {list : ChildList} (grown : Grown list) (child : ParsedNode)
    (room : list.nodes.length < xmlParserNodeCount) :
    ∃ pushed, xmlNodeChildPush list child = some pushed ∧ Grown pushed := by
  obtain ⟨k, alloc, within⟩ := grown
  rw [xmlNodeChildPush]
  split
  next inside =>
    refine ⟨_, rfl, k, alloc, ?_⟩
    rw [length_append, length_singleton]
    exact inside.2.2
  next outside =>
    have notLast : list.nodes.length ≠ xmlParserNodeCount - 1 := by
      intro last
      have other := three_pow_ne k
      rw [← alloc] at other
      exact outside ⟨by rw [last]; decide, room, by omega⟩
    rw [if_neg (by omega)]
    refine ⟨_, rfl, k + 1, by rw [alloc, pow_succ], ?_⟩
    have positive : 0 < list.allocCount := by
      rw [alloc]
      exact Nat.pow_pos (by decide)
    have larger : list.nodes.length + 1 ≤ list.allocCount * 3 := by omega
    simpa using larger

theorem xmlNodeChildPush_full {list : ChildList} (child : ParsedNode)
    (full : xmlParserNodeCount ≤ list.nodes.length) : xmlNodeChildPush list child = none := by
  rw [xmlNodeChildPush, if_neg (by omega), if_pos (by omega)]

/-- The parser read a word: it is at `rest`, up to whitespace it skipped, and took
no lenient branch. -/
structure Read (named : Bool) (parser next : XmlParser) (rest : Bytes) : Prop where
  skipped : ∃ spaces, Spaces spaces ∧ rest = spaces ++ next.rest
  level : next.level = parser.level
  references : next.references = none
  strict : ∀ event ∈ next.trace, event ∈ parser.trace ∨ Strict named event

inductive NodeOutcome (named : Bool) (parser : XmlParser) (markup : Markup) (rest : Bytes) :
    Parsed ParsedNode → Prop where
  | accepted (node : ParsedNode) (next : XmlParser) : node.tree = markup.tree →
      Read named parser next rest → NodeOutcome named parser markup rest (.ok node, next)
  | refused (failure : XmlFailure) (stopped : XmlParser) :
      ¬ markup.Fits parser.level → xmlParserPeek stopped.rest 0 ≠ slash →
      NodeOutcome named parser markup rest (.error failure, stopped)

inductive LoopOutcome (named : Bool) (parser : XmlParser) (list : ChildList) (markups : Markups)
    (closing : Bytes) : Parsed (ChildList × Bool) → Prop where
  | accepted (list' : ChildList) (unprefixed : Bool) (ended : XmlParser) :
      ParsedNode.trees list'.nodes = ParsedNode.trees list.nodes ++ markups.trees →
      ended.rest = closingPrefix unprefixed ++ closing → ended.level = parser.level →
      ended.references = none →
      (∀ event ∈ ended.trace, event ∈ parser.trace ∨ Strict named event) →
      LoopOutcome named parser list markups closing (.ok (list', unprefixed), ended)
  | refused (failure : XmlFailure) (stopped : XmlParser) :
      ¬ (markups.Fit parser.level ∧ list.nodes.length + markups.count ≤ xmlParserNodeCount) →
      xmlParserPeek stopped.rest 0 ≠ slash →
      LoopOutcome named parser list markups closing (.error failure, stopped)

theorem closeNode_of_text (named : Bool) (parser : XmlParser) {opened : Opened}
    {name closing : Bytes} (formed : (closingText name closing).WellFormed)
    (free : 0 ∉ (closingText name closing).bytes) (same : opened.name = name)
    {unprefixed : Bool} {rest : Bytes} (atClosing : parser.rest =
      closingPrefix unprefixed ++ ((closingText name closing).bytes ++ gt :: rest))
    (bare : parser.references = none) (content : Option Bytes) (children : List ParsedNode)
    (number : Option Nat) :
    ∃ next, closeNode opened content children unprefixed number parser =
        (.ok (opened.node content children), next) ∧ Read named parser next rest := by
  have scanned := xmlParseTagClose_of_text formed free unprefixed rest
  rw [← atClosing] at scanned
  refine ⟨closedParser unprefixed parser rest, ?_, ?_⟩
  · rw [closeNode, scanned]
    simp [same, bare, closingText]
  · refine ⟨⟨[], forall_mem_nil _, rfl⟩, rfl, bare, ?_⟩
    intro event member
    rcases mem_cons.mp member with rfl | old
    · exact .inr ⟨name, closing, rest, formed, atClosing⟩
    · exact .inl old

structure Ready (depth : Nat) (parser : XmlParser) : Prop where
  positive : 0 < depth
  enough : xmlParserNestLevel < parser.level + depth
  bare : parser.references = none

variable {depth : Nat}

theorem Ready.deeper {parser : XmlParser} (ready : Ready (depth + 1) parser)
    {tag : Tag} {rest : Bytes} (within : parser.level + 1 ≤ xmlParserNestLevel) :
    Ready depth (deeperParser (enterNode parser tag rest)) := by
  have enough := ready.enough
  refine ⟨by omega, ?_, ready.bare⟩
  have deeper : (deeperParser (enterNode parser tag rest)).level = parser.level + 1 := rfl
  omega

theorem skip_content {before text : Bytes} (spaces : Spaces before) (content : Content text)
    (rest : Bytes) : xmlSkipWhitespace (before ++ (text ++ rest)) = text ++ rest := by
  have stops : StopsAt isAsciiSpace (text ++ rest) := by
    obtain ⟨c, more, shape⟩ := exists_cons_of_ne_nil content.nonempty
    have front := content.front
    rw [shape] at front ⊢
    exact front
  rw [skip_spaces spaces, skip_of_stopsAt stops]

variable {tag : TagText}

theorem peek_opening {named : Bool} (opening : Opening named tag)
    (selfClosing : Bool) (closes : selfClosing = true → tag.name ≠ []) (rest : Bytes) :
    Opens (tag.bytes ++ (tagEnd selfClosing ++ rest)) := by
  by_cases unnamed : tag.name = []
  · have plain : selfClosing = false := by
      cases selfClosing
      · rfl
      · exact absurd unnamed (closes rfl)
    rw [bytes_of_unnamed opening.formed unnamed, plain]
    exact ⟨(by decide : gt ≠ slash), (by decide : gt ≠ question), (by decide : gt ≠ exclamation)⟩
  · rw [Opens, peek_bytes unnamed]
    refine ⟨?_, opening.element⟩
    obtain ⟨c, more, shape⟩ := exists_cons_of_ne_nil unnamed
    have byte := (opening.formed.name c (by simp [shape])).1
    rw [shape, peek_zero]
    rintro rfl
    exact absurd byte (by decide)

theorem xmlParseTagOpen_of_text {named : Bool} (opening : Opening named tag)
    (selfClosing : Bool) (closes : selfClosing = true → tag.name ≠ []) (free : 0 ∉ tag.bytes)
    {lead : Bytes} (controls : Controls lead) (rest : Bytes) :
    xmlParseTagOpen (lead ++ lt :: (tag.bytes ++ (tagEnd selfClosing ++ rest))) =
      (.ok ⟨tag.name, tag.attributes?, selfClosing⟩, rest) := by
  have opens := peek_opening opening selfClosing closes rest
  rw [xmlParseTagOpen_of_controls controls _ opens.2, tagOpenAt, if_neg opens.1]
  exact xmlParseTagEnd_of_text opening.formed free (fun closing => by cases closing) rest

theorem text_opens {named : Bool} {markup : Markup} (formed : markup.WellFormed named) :
    ∃ word, markup.text = lt :: word ∧ ∀ rest, xmlParserPeek (word ++ rest) 0 ≠ slash := by
  cases markup with
  | selfClosing tag =>
    refine ⟨_, rfl, fun rest => ?_⟩
    rw [append_assoc]
    exact (peek_opening formed true formed.named rest).1
  | textual tag before text after closing =>
    refine ⟨_, rfl, fun rest => ?_⟩
    rw [append_assoc, append_assoc]
    exact (peek_opening formed.1 false (fun closes => by cases closes) _).1
  | nested tag children trailing closing =>
    refine ⟨_, rfl, fun rest => ?_⟩
    rw [append_assoc, append_assoc]
    exact (peek_opening formed.1 false (fun closes => by cases closes) _).1

theorem following {named : Bool} {markups : Markups} (formed : markups.WellFormed named)
    {trailing : Bytes} (controls : Controls trailing) (closing : Bytes) :
    ∃ lead word, Controls lead ∧
      markups.text ++ (trailing ++ (closingPrefix false ++ closing)) = lead ++ lt :: word := by
  cases markups with
  | nil => exact ⟨trailing, slash :: closing, controls, rfl⟩
  | cons lead element rest =>
    obtain ⟨word, same, -⟩ := text_opens formed.2.1
    exact ⟨lead, _, formed.1, by rw [Markups.text, same, append_assoc]; rfl⟩

theorem Read.trans {named : Bool} {first second third : XmlParser} {middle rest : Bytes}
    (front : Read named first second middle) (back : Read named second third rest) :
    Read named first third rest where
  skipped := back.skipped
  level := back.level.trans front.level
  references := back.references
  strict := by
    intro event member
    rcases back.strict event member with old | strict
    · exact front.strict event old
    · exact .inr strict

theorem enter_read {named : Bool} {parser : XmlParser}
    (opening : Opening named tag) (rest : Bytes) (bare : parser.references = none) :
    Read named parser (enterNode parser ⟨tag.name, tag.attributes?, false⟩ rest) rest := by
  obtain ⟨spaces, all, split⟩ := skip_split rest
  refine ⟨⟨spaces, all, split⟩, rfl, bare, ?_⟩
  intro event member
  rcases mem_cons.mp member with rfl | old
  · exact .inr opening.named
  · exact .inl old

section Body
variable (named : Bool) (parseChild : XmlParser → Parsed ParsedNode) (opened : Opened)
  (parser : XmlParser) (rest : Bytes) {name closing : Bytes}

theorem parseBody_textual {text after : Bytes}
    (content : Content text) (textFree : 0 ∉ text) (spaces : Spaces after)
    (formed : (closingText name closing).WellFormed)
    (free : 0 ∉ (closingText name closing).bytes) (same : opened.name = name)
    (bare : parser.references = none) (atText : parser.rest = text ++ (after ++
      (closingPrefix false ++ ((closingText name closing).bytes ++ gt :: rest)))) :
    ∃ next, parseBody parseChild opened parser = (.ok (opened.node (some text) []), next) ∧
      Read named parser next rest := by
  have textual : xmlParserPeek parser.rest 0 ≠ lt := by
    obtain ⟨c, more, shape⟩ := exists_cons_of_ne_nil content.nonempty
    rw [atText, shape, cons_append, peek_zero]
    rintro rfl
    exact content.plain (by simp [shape])
  have scanned : xmlParseContent parser.rest =
      (.ok text, closingPrefix true ++ ((closingText name closing).bytes ++ gt :: rest)) := by
    rw [atText]
    exact xmlParseContent_of_text content textFree spaces _
  obtain ⟨next, closed, read⟩ := closeNode_of_text named
    { parser with rest := closingPrefix true ++ ((closingText name closing).bytes ++ gt :: rest) }
    formed free same rfl bare (some text) [] (ownReference parser.references opened.attributes)
  refine ⟨next, ?_, read.skipped, read.level, read.references, read.strict⟩
  rw [parseBody, if_pos textual, scanned]
  exact closed

theorem parseBody_nested {markups : Markups} (formed : (closingText name closing).WellFormed)
    (free : 0 ∉ (closingText name closing).bytes) (same : opened.name = name)
    (found : xmlParserPeek parser.rest 0 = lt) (loop : parser.level + 1 ≤ xmlParserNestLevel →
      LoopOutcome named (deeperParser parser) .absent markups
        ((closingText name closing).bytes ++ gt :: rest)
        (xmlParseChildren parseChild (parser.rest.length + 1) .absent (deeperParser parser))) :
    (∃ children next, parseBody parseChild opened parser =
        (.ok (opened.node none children), next) ∧ ParsedNode.trees children = markups.trees ∧
        Read named parser next rest) ∨
      ∃ failure stopped, parseBody parseChild opened parser = (.error failure, stopped) ∧
        xmlParserPeek stopped.rest 0 ≠ slash ∧
        ¬ (parser.level + 1 ≤ xmlParserNestLevel ∧ markups.count ≤ xmlParserNodeCount ∧
          markups.Fit (parser.level + 1)) := by
  rw [parseBody, if_neg (not_not.mpr found)]
  by_cases within : parser.level + 1 ≤ xmlParserNestLevel
  · rw [if_neg (Nat.not_lt.mpr within)]
    replace loop := loop within
    generalize xmlParseChildren parseChild (parser.rest.length + 1) .absent
      (deeperParser parser) = result at loop
    cases loop with
    | accepted list unprefixed ended trees atClosing level bare strict =>
      left
      obtain ⟨next, closed, read⟩ := closeNode_of_text named (shallowerParser ended) formed free
        same atClosing bare none list.nodes
        (if list.nodes.isEmpty then ownReference ended.references opened.attributes else none)
      refine ⟨list.nodes, next, closed, by simpa [ChildList.absent, ParsedNode.trees] using trees, ?_⟩
      refine ⟨read.skipped, ?_, read.references, ?_⟩
      · rw [read.level, shallowerParser, level]
        rfl
      · intro event member
        rcases read.strict event member with old | strictly
        · exact strict event old
        · exact .inr strictly
    | refused failure stopped unfit other =>
      right
      refine ⟨failure, stopped, rfl, other, ?_⟩
      rintro ⟨-, count, fit⟩
      exact unfit ⟨fit, by simpa [ChildList.absent] using count⟩
  · rw [if_pos (Nat.lt_of_not_le within)]
    right
    refine ⟨_, _, rfl, ?_, fun fits => within fits.1⟩
    have here : (deeperParser parser).rest = parser.rest := rfl
    rw [here, found]
    decide

end Body

theorem childEnd_of_text (positive : 0 < depth) {parser : XmlParser}
    {lead closing : Bytes} (controls : Controls lead)
    (same : parser.rest = lead ++ lt :: slash :: closing) :
    xmlParseNode depth parser = (.error .childEnd, { parser with rest := slash :: closing }) := by
  obtain ⟨depth, rfl⟩ := Nat.exists_eq_succ_of_ne_zero (Nat.ne_of_gt positive)
  have scanned := xmlParseTagOpen_of_controls controls (slash :: closing)
    ⟨(by decide : slash ≠ question), (by decide : slash ≠ exclamation)⟩
  rw [← same] at scanned
  rw [Nat.succ_eq_add_one, xmlParseNode, scanned]
  rfl

theorem xmlParseNode_body {parser : XmlParser} {tag : Tag} {rest : Bytes}
    (scanned : xmlParseTagOpen parser.rest = (.ok tag, rest)) (opens : tag.selfClosing = false) :
    xmlParseNode (depth + 1) parser =
      parseBody (xmlParseNode depth) (openNode parser tag) (enterNode parser tag rest) := by
  rw [xmlParseNode, scanned]
  simp [opens]

theorem LoopOutcome.pushed {named : Bool} {parser next : XmlParser} {list list' : ChildList}
    {lead rest closing : Bytes} {element : Markup} {markups : Markups} {child : ParsedNode}
    {result : Parsed (ChildList × Bool)} (read : Read named parser next rest)
    (tree : child.tree = element.tree) (nodes : list'.nodes = list.nodes ++ [child])
    (outcome : LoopOutcome named next list' markups closing result) :
    LoopOutcome named parser list (.cons lead element markups) closing result := by
  cases outcome with
  | accepted list'' unprefixed ended trees atClosing level bare strict =>
    refine .accepted list'' unprefixed ended ?_ atClosing (level.trans read.level) bare ?_
    · rw [trees, nodes, trees_append]
      simp [ParsedNode.trees, Markups.trees, tree]
    · intro event member
      rcases strict event member with old | strictly
      · exact read.strict event old
      · exact .inr strictly
  | refused failure stopped unfit other =>
    refine .refused failure stopped ?_ other
    rintro ⟨⟨-, fit⟩, count⟩
    apply unfit
    rw [read.level, nodes, length_append, length_singleton]
    rw [Markups.count] at count
    exact ⟨fit, by omega⟩

mutual

-- By recursion over the markup, as the parser recurses over its text.
theorem parse_markup {named : Bool} (markup : Markup) {depth : Nat} {parser : XmlParser}
    {lead rest : Bytes} (formed : markup.WellFormed named) (free : 0 ∉ markup.text)
    (controls : Controls lead) (ready : Ready depth parser)
    (same : parser.rest = lead ++ (markup.text ++ rest)) :
    NodeOutcome named parser markup rest (xmlParseNode depth parser) := by
  obtain ⟨depth, rfl⟩ := Nat.exists_eq_succ_of_ne_zero (Nat.ne_of_gt ready.positive)
  rw [Nat.succ_eq_add_one]
  match markup with
  | .selfClosing tag =>
    simp only [Markup.text, mem_cons, mem_append, not_or] at free
    simp only [Markup.text, cons_append, append_assoc] at same
    have scanned := xmlParseTagOpen_of_text formed true formed.named free.2.1 controls rest
    obtain ⟨spaces, all, split⟩ := skip_split rest
    rw [xmlParseNode, same, scanned]
    refine .accepted _ _ rfl ⟨⟨spaces, all, split⟩, rfl, ready.bare, ?_⟩
    intro event member
    rcases mem_cons.mp member with rfl | old
    · exact .inr fun _ => formed.named rfl
    · exact .inl old
  | .textual tag before text after closing =>
    obtain ⟨opening, beforeSpaces, content, afterSpaces, closingFormed⟩ := formed
    simp only [Markup.text, mem_cons, mem_append, not_or] at free
    simp only [Markup.text, cons_append, append_assoc, nil_append] at same
    have scanned := xmlParseTagOpen_of_text opening false (fun closes => by cases closes)
      free.2.1 controls (before ++ (text ++ (after ++ (closingPrefix false ++
        ((closingText tag.name closing).bytes ++ gt :: rest)))))
    rw [← same] at scanned
    have atText := skip_content beforeSpaces content
      (after ++ (closingPrefix false ++ ((closingText tag.name closing).bytes ++ gt :: rest)))
    obtain ⟨next, parsed, read⟩ := parseBody_textual named (xmlParseNode depth)
      (openNode parser ⟨tag.name, tag.attributes?, false⟩)
      (enterNode parser ⟨tag.name, tag.attributes?, false⟩ _) rest content free.2.2.2.2.1 afterSpaces closingFormed
      free.2.2.2.2.2.2.2.1 rfl ready.bare atText
    rw [xmlParseNode_body scanned rfl, parsed]
    exact .accepted _ _ rfl ((enter_read opening _ ready.bare).trans read)
  | .nested tag children trailing closing =>
    obtain ⟨opening, childrenFormed, trailingControls, closingFormed⟩ := formed
    simp only [Markup.text, mem_cons, mem_append, not_or] at free
    simp only [Markup.text, cons_append, append_assoc, nil_append] at same
    generalize content : children.text ++ (trailing ++ (closingPrefix false ++
      ((closingText tag.name closing).bytes ++ gt :: rest))) = word at same
    have scanned := xmlParseTagOpen_of_text opening false (fun closes => by cases closes)
      free.2.1 controls word
    rw [← same] at scanned
    have entered := enter_read opening word ready.bare
    obtain ⟨spaces, all, split⟩ := entered.skipped
    obtain ⟨lead', word', controls', same'⟩ :=
      following childrenFormed trailingControls ((closingText tag.name closing).bytes ++ gt :: rest)
    have found : xmlParserPeek (xmlSkipWhitespace word) 0 = lt := by
      rw [← content, same']
      exact peek_skipped controls' word'
    have outcome := parseBody_nested named (xmlParseNode depth)
      (openNode parser ⟨tag.name, tag.attributes?, false⟩)
      (enterNode parser ⟨tag.name, tag.attributes?, false⟩ word) rest closingFormed
      free.2.2.2.2.2.2.1 rfl found fun within =>
        parse_markups children childrenFormed free.2.2.2.1 trailingControls
          (ready.deeper within) absent_grown all (split.symm.trans content.symm)
          (Nat.lt_succ_self _)
    rw [xmlParseNode_body scanned rfl]
    rcases outcome with ⟨nodes, next, parsed, trees, read⟩ | ⟨failure, stopped, parsed, other, unfit⟩
    · rw [parsed]
      refine .accepted _ _ ?_ (entered.trans read)
      rw [Opened.node, ParsedNode.tree, Markup.tree, trees]
      rfl
    · rw [parsed]
      exact .refused failure stopped unfit other

theorem parse_markups {named : Bool} (markups : Markups) {depth passes : Nat}
    {parser : XmlParser} {list : ChildList} {spaces trailing closing : Bytes}
    (formed : markups.WellFormed named) (free : 0 ∉ markups.text) (controls : Controls trailing)
    (ready : Ready depth parser) (grown : Grown list) (all : Spaces spaces)
    (same : spaces ++ parser.rest = markups.text ++ (trailing ++ (closingPrefix false ++ closing)))
    (enough : parser.rest.length < passes) :
    LoopOutcome named parser list markups closing
      (xmlParseChildren (xmlParseNode depth) passes list parser) := by
  obtain ⟨passes, rfl⟩ := Nat.exists_eq_succ_of_ne_zero (Nat.ne_of_gt (Nat.zero_lt_of_lt enough))
  rw [Nat.succ_eq_add_one, xmlParseChildren]
  match markups with
  | .nil =>
    have atClosing : spaces ++ parser.rest = trailing ++ lt :: slash :: closing := same
    obtain ⟨lead, split, atLead⟩ := split_spaces all atClosing
    rw [split] at controls
    replace controls := Controls.drop_spaces controls all
    by_cases empty : lead = []
    · rw [empty, nil_append] at atLead
      have found : xmlParserPeek parser.rest 1 = slash := by
        rw [atLead]
        rfl
      rw [if_pos found]
      exact .accepted list false parser (by simp [Markups.trees]) atLead rfl ready.bare
        fun event member => .inl member
    · have more := peek_controls_next controls empty (slash :: closing)
      rw [← atLead] at more
      rw [if_neg more, childEnd_of_text ready.positive controls atLead]
      refine .accepted list true _ (by simp [Markups.trees]) rfl rfl ready.bare ?_
      intro event member
      rcases mem_cons.mp member with rfl | old
      · exact .inr rfl
      · exact .inl old
  | .cons lead element rest =>
    obtain ⟨leadControls, elementFormed, restFormed⟩ := formed
    simp only [Markups.text, mem_append, not_or] at free
    rw [Markups.text, append_assoc, append_assoc] at same
    obtain ⟨word, opens, unclosed⟩ := text_opens elementFormed
    obtain ⟨lead', split, atLead⟩ : ∃ lead', lead = spaces ++ lead' ∧ parser.rest =
        lead' ++ (element.text ++ (rest.text ++ (trailing ++ (closingPrefix false ++ closing)))) := by
      rw [opens] at same ⊢
      exact split_spaces all same
    rw [split] at leadControls
    replace leadControls := Controls.drop_spaces leadControls all
    have more : xmlParserPeek parser.rest 1 ≠ slash := by
      rw [atLead, opens]
      cases lead' with
      | nil => exact unclosed _
      | cons c lead' => exact peek_controls_next leadControls (by simp) _
    have outcome := parse_markup element elementFormed free.2.1 leadControls ready atLead
    have shorter := @xmlParseNode_shorter depth parser
    rw [if_neg more]
    generalize xmlParseNode depth parser = result at outcome shorter
    cases outcome with
    | refused failure stopped unfit other =>
      simp only [if_neg other]
      exact .refused _ _ (fun fits => unfit fits.1.1) other
    | accepted child next tree read =>
      obtain ⟨gap, gapSpaces, behind⟩ := read.skipped
      have nextReady : Ready depth next :=
        ⟨ready.positive, by rw [read.level]; exact ready.enough, read.references⟩
      by_cases room : list.nodes.length < xmlParserNodeCount
      · obtain ⟨list', push, grown'⟩ := xmlNodeChildPush_room grown child room
        simp only [push]
        exact LoopOutcome.pushed read tree (xmlNodeChildPush_nodes push)
          (parse_markups rest restFormed free.2.2 controls nextReady grown' gapSpaces
            behind.symm (Nat.lt_of_lt_of_le (shorter rfl) (Nat.le_of_lt_succ enough)))
      · simp only [xmlNodeChildPush_full child (Nat.le_of_not_lt room)]
        refine .refused _ _ ?_ ?_
        · rintro ⟨-, count⟩
          rw [Markups.count] at count
          omega
        · obtain ⟨front, word', frontControls, follows⟩ := following restFormed controls closing
          obtain ⟨front', split', here⟩ := split_spaces gapSpaces (behind.symm.trans follows)
          rw [split'] at frontControls
          rw [here]
          exact peek_controls (Controls.drop_spaces frontControls gapSpaces) word'

end

/-- The buffer up to `rest` is control sequences and one element, whose tree is
`tree`; whitespace behind a self closing element is consumed with it. -/
def WellNested (buffer rest : Bytes) (tree : Tree) : Prop :=
  ∃ lead, ∃ markup : Markup, ∃ spaces, Controls lead ∧ markup.WellFormed true ∧ Spaces spaces ∧
    markup.tree = tree ∧ buffer = lead ++ (markup.text ++ (spaces ++ rest))

/-- Every document `XmlDocumentParse` makes of the buffer is the tree of the text it consumed. -/
def AcceptsWellNested (buffer : Bytes) : Prop :=
  ∀ document, xmlDocumentParse buffer false = some document →
    WellNested buffer (parseRoot buffer false).2.rest document.root.tree

def ParsedStrictly (buffer : Bytes) : Prop :=
  (xmlDocumentParse buffer false).isSome →
    ∀ event ∈ (parseRoot buffer false).2.trace, Strict true event

theorem xmlDocumentParse_eq_some {buffer : Bytes} {withRefs : Bool} {document : XmlDocument}
    (accepted : xmlDocumentParse buffer withRefs = some document) :
    parseRoot buffer withRefs = (.ok document.root, (parseRoot buffer withRefs).2) ∧
      document.references = (parseRoot buffer withRefs).2.references ∧
      document.length = buffer.length ∧ buffer.length ≤ xmlParserMaxSize := by
  rw [xmlDocumentParse] at accepted
  split at accepted
  · cases accepted
  next sized =>
    have bounded : buffer.length ≤ xmlParserMaxSize := Nat.not_lt.mp (not_or.mp sized).2
    generalize parseRoot buffer withRefs = result at accepted
    match result with
    | (.error failure, parser) => cases accepted
    | (.ok root, parser) =>
      cases accepted
      exact ⟨rfl, rfl, rfl, bounded⟩

theorem initial_ready (buffer : Bytes) :
    Ready (xmlParserNestLevel + 1) (initialParser buffer false) :=
  ⟨Nat.succ_pos _, by simp [initialParser], rfl⟩

theorem strict_of_wellNested {buffer rest : Bytes} {tree : Tree} (free : 0 ∉ buffer)
    (nested : WellNested buffer rest tree) (accepted : (xmlDocumentParse buffer false).isSome) :
    ∀ event ∈ (parseRoot buffer false).2.trace, Strict true event := by
  obtain ⟨document, parsed⟩ := Option.isSome_iff_exists.mp accepted
  obtain ⟨root, -⟩ := xmlDocumentParse_eq_some parsed
  obtain ⟨lead, markup, spaces, controls, formed, -, -, same⟩ := nested
  have textFree : 0 ∉ markup.text := by
    intro member
    apply free
    rw [same]
    exact mem_append_right _ (mem_append_left _ member)
  have outcome := parse_markup markup formed textFree controls (initial_ready buffer) same
  generalize final : xmlParseNode (xmlParserNestLevel + 1) (initialParser buffer false) = result
    at outcome
  cases outcome with
  | refused failure stopped =>
    cases root.symm.trans final
  | accepted node next tree read =>
    have last : (parseRoot buffer false).2 = next := congrArg Prod.snd final
    intro event member
    rw [last] at member
    rcases read.strict event member with old | strict
    · cases old
    · exact strict

theorem xml_document_parse_well_nested_iff (buffer : Bytes) (free : 0 ∉ buffer) :
    AcceptsWellNested buffer ↔ ParsedStrictly buffer := by
  constructor
  · intro nested accepted
    obtain ⟨document, parsed⟩ := Option.isSome_iff_exists.mp accepted
    exact strict_of_wellNested free (nested document parsed) accepted
  · intro strict document parsed
    obtain ⟨root, -⟩ := xmlDocumentParse_eq_some parsed
    exact xmlParseNode_sound (xmlParserNestLevel + 1) _ _ _ root free
      (strict (Option.isSome_iff_exists.mpr ⟨document, parsed⟩))

def nestedText : Bytes := Plist.ascii "<?xml?><p a=\"1\"> <q>t</q ><!-- > --><r/> </p>"

theorem xml_document_parse_well_nested_sample :
    (xmlDocumentParse nestedText false).isSome ∧
      (AcceptsWellNested nestedText ↔ ParsedStrictly nestedText) :=
  ⟨by decide, xml_document_parse_well_nested_iff nestedText (by decide)⟩

def stray : XmlEvent → Bool
  | .recovered failure _ _ _ _ => failure != .childEnd
  | _ => false

theorem stray_not_strict {named : Bool} {event : XmlEvent} (strays : stray event) :
    ¬ Strict named event := by
  cases event with
  | recovered failure before after first next => simpa [stray, Strict] using strays
  | opened => cases strays
  | closed => cases strays

-- The second `/` of `<a//p>` ends the element `a` with an error, but the parent
-- takes it for the `/` of its own closing tag.
def strayText : Bytes := Plist.ascii "<p><a//p>"

theorem stray_closing_accepted :
    0 ∉ strayText ∧ strayText.length ≤ xmlParserMaxSize ∧
      ∃ document, xmlDocumentParse strayText false = some document ∧
        ¬ WellNested strayText (parseRoot strayText false).2.rest document.root.tree := by
  have accepted : (xmlDocumentParse strayText false).isSome := by decide
  obtain ⟨document, parsed⟩ := Option.isSome_iff_exists.mp accepted
  have free : 0 ∉ strayText := by decide
  refine ⟨free, by decide, document, parsed, ?_⟩
  intro nested
  have strict := strict_of_wellNested free nested accepted
  have found : (parseRoot strayText false).2.trace.any stray = true := by decide
  obtain ⟨event, member, strays⟩ := any_eq_true.mp found
  exact stray_not_strict strays (strict event member)

end OpenCore.XmlNesting
