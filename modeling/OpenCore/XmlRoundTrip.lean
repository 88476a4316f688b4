import OpenCore.XmlStrings

/-!
Parsing what was exported. The exporter prints the canonical markup of a tree,
so the parser reads it back unless the tree holds an element that has neither a
name nor anything inside: such an element is printed as a closing tag.
-/

namespace OpenCore.XmlRoundTrip

open Base ByteBuffer XmlText XmlParse XmlGrammar XmlSteps XmlMarkup XmlNesting XmlExport XmlStrings
  List

def TagRead (name : Bytes) (attributes : Option Bytes) : Prop :=
  ∃ tag : TagText, Opening false tag ∧ 0 ∉ tag.bytes ∧ tag.name = name ∧
    tag.attributes? = attributes

mutual

def Accepted (level : Nat) : Tree → Prop
  | .mk name attributes content children =>
    TagRead name attributes ∧
      (∀ text ∈ content, Content text ∧ 0 ∉ text ∧ children = []) ∧
      (children ≠ [] → level + 1 ≤ xmlParserNestLevel) ∧
      children.length ≤ xmlParserNodeCount ∧ AllAccepted (level + 1) children

def AllAccepted (level : Nat) : List Tree → Prop
  | [] => True
  | tree :: rest => Accepted level tree ∧ AllAccepted level rest

end

mutual

theorem Accepted.shallower {level level' : Nat} (fewer : level' ≤ level) {tree : Tree}
    (accepted : Accepted level tree) : Accepted level' tree := by
  match tree, accepted with
  | .mk name attributes content children, ⟨tag, text, nest, count, all⟩ =>
    exact ⟨tag, text, fun parent => (Nat.add_le_add_right fewer 1).trans (nest parent), count,
      AllAccepted.shallower (Nat.add_le_add_right fewer 1) all⟩

theorem AllAccepted.shallower {level level' : Nat} (fewer : level' ≤ level) {trees : List Tree}
    (accepted : AllAccepted level trees) : AllAccepted level' trees := by
  match trees, accepted with
  | [], _ => trivial
  | tree :: rest, ⟨first, others⟩ =>
    exact ⟨Accepted.shallower fewer first, AllAccepted.shallower fewer others⟩

end

theorem allAccepted_append {level : Nat} {front back : List Tree}
    (first : AllAccepted level front) (second : AllAccepted level back) :
    AllAccepted level (front ++ back) := by
  induction front with
  | nil => exact second
  | cons tree rest ih => exact ⟨first.1, ih first.2⟩

theorem trees_length (nodes : List ParsedNode) :
    (ParsedNode.trees nodes).length = nodes.length := by
  induction nodes with
  | nil => rfl
  | cons node rest ih => rw [ParsedNode.trees, length_cons, length_cons, ih]

theorem xmlNodeChildPush_count {list pushed : ChildList} {child : ParsedNode}
    (push : xmlNodeChildPush list child = some pushed) :
    pushed.nodes.length ≤ xmlParserNodeCount := by
  have nodes := xmlNodeChildPush_nodes push
  by_cases full : xmlParserNodeCount ≤ list.nodes.length
  · rw [xmlNodeChildPush_full child full] at push
    cases push
  · rw [nodes, length_append, length_singleton]
    exact Nat.lt_of_not_le full

def Accepts (parse : XmlParser → Parsed ParsedNode) : Prop :=
  ∀ parser node next, parse parser = (.ok node, next) → 0 ∉ parser.rest →
    Accepted parser.level node.tree

variable {parseChild : XmlParser → Parsed ParsedNode} {parser ended : XmlParser}
  {list list' : ChildList}

theorem xmlParseChildren_accepted
    (advances : ∀ parser, Advances parser (parseChild parser).2) (accepts : Accepts parseChild)
    {passes level : Nat} {unprefixed : Bool}
    (parsed : xmlParseChildren parseChild passes list parser = (.ok (list', unprefixed), ended))
    (free : 0 ∉ parser.rest) (above : level ≤ parser.level)
    (accepted : AllAccepted level (ParsedNode.trees list.nodes))
    (count : list.nodes.length ≤ xmlParserNodeCount) :
    AllAccepted level (ParsedNode.trees list'.nodes) ∧ list'.nodes.length ≤ xmlParserNodeCount := by
  induction passes generalizing list parser with
  | zero => cases parsed
  | succ passes ih =>
    have advanced := advances parser
    have step := xmlParseChildren_step parseChild passes list parser
    rw [parsed] at step
    generalize shape : ((.ok (list', unprefixed), ended) : Parsed (ChildList × Bool)) = result
      at step
    cases step with
    | closing => cases shape; exact ⟨accepted, count⟩
    | recovered => cases shape; exact ⟨accepted, count⟩
    | failed => cases shape
    | full => cases shape
    | pushed child next list'' more read push =>
      rw [read] at advanced
      have childAccepted := accepts parser child next read free
      apply ih shape.symm (free_of_suffix advanced.rest free) (above.trans advanced.level) _
        (xmlNodeChildPush_count push)
      rw [xmlNodeChildPush_nodes push, trees_append]
      exact allAccepted_append accepted ⟨childAccepted.shallower above, trivial⟩

theorem parseBody_accepted
    (advances : ∀ parser, Advances parser (parseChild parser).2) (accepts : Accepts parseChild)
    {opened : Opened} {parser next : XmlParser} {node : ParsedNode}
    (parsed : parseBody parseChild opened parser = (.ok node, next)) (free : 0 ∉ parser.rest)
    (stops : StopsAt isAsciiSpace parser.rest) (tag : TagRead opened.name opened.attributes) :
    Accepted parser.level node.tree := by
  have step := parseBody_step parseChild opened parser
  rw [parsed] at step
  generalize shape : ((.ok node, next) : Parsed ParsedNode) = result at step
  cases step with
  | contentless => cases shape
  | textual content rest textual scanned =>
    obtain ⟨after, formed, -, split⟩ := xmlParseContent_ok free stops textual scanned
    obtain ⟨rfl, -⟩ := closeNode_node shape.symm
    have contentFree : 0 ∉ content := fun member => free (split ▸ mem_append_left _ member)
    refine ⟨tag, ?_, fun parent => absurd rfl parent, Nat.zero_le _, trivial⟩
    rintro _ ⟨⟩
    exact ⟨formed, contentFree, rfl⟩
  | overflow => cases shape
  | childless => cases shape
  | nested list unprefixed ended found within children =>
    obtain ⟨rfl, -⟩ := closeNode_node shape.symm
    obtain ⟨all, count⟩ := xmlParseChildren_accepted advances accepts children free
      (Nat.le_refl _) trivial (Nat.zero_le _)
    have lengths : (ParsedNode.trees list.nodes).length = list.nodes.length := trees_length _
    exact ⟨tag, nofun, fun _ => within, lengths ▸ count, all⟩

theorem xmlParseTagOpen_read {rest after : Bytes} {tag : Tag} (free : 0 ∉ rest)
    (scanned : xmlParseTagOpen rest = (.ok tag, after)) : TagRead tag.name tag.attributes := by
  obtain ⟨lead, word, controls, opening, name, attributes, same⟩ :=
    xmlParseTagOpen_sound free scanned
  have wordFree : 0 ∉ word.bytes := by
    intro member
    apply free
    rw [same]
    exact mem_append_right _ (mem_cons_of_mem _ (mem_append_left _ member))
  rw [name, attributes]
  exact ⟨word, ⟨opening.formed, opening.element, nofun⟩, wordFree, rfl, rfl⟩

theorem xmlParseNode_accepted (depth : Nat) : Accepts (xmlParseNode depth) := by
  induction depth with
  | zero => exact fun parser node next parsed => by cases parsed
  | succ depth ih =>
    intro parser node next parsed free
    have step := xmlParseNode_step depth parser
    rw [parsed] at step
    generalize shape : ((.ok node, next) : Parsed ParsedNode) = result at step
    cases step with
    | unopened => cases shape
    | selfClosing tag rest scanned =>
      cases shape
      exact ⟨xmlParseTagOpen_read free scanned, nofun, fun parent => absurd rfl parent,
        Nat.zero_le _, trivial⟩
    | body tag rest scanned opens =>
      have inside := free_of_suffix (enterNode_advances scanned).rest free
      have accepted := parseBody_accepted (xmlParseNode_advances depth) ih shape.symm inside
        (stopsAt_dropWhile isAsciiSpace rest) (xmlParseTagOpen_read free scanned)
      exact accepted

def tagOf (name : Bytes) (attributes : Option Bytes) : TagText :=
  ⟨name, (attributes.map fun _ => [32]).getD [], attributes.getD []⟩

theorem tagOf_bytes (name : Bytes) (attributes : Option Bytes) :
    (tagOf name attributes).bytes = name ++ (attributes.map (32 :: ·)).getD [] := by
  cases attributes <;> simp [tagOf, TagText.bytes]

theorem tagOf_attributes (name : Bytes) (attributes : Option Bytes) :
    (tagOf name attributes).attributes? = attributes := by
  cases attributes <;> rfl

variable {attributes : Option Bytes} {name : Bytes}

theorem tagOf_opening (read : TagRead name attributes) :
    Opening false (tagOf name attributes) := by
  obtain ⟨tag, opening, -, rfl, rfl⟩ := read
  have formed := opening.formed
  refine ⟨?_, opening.element, fun same => absurd same (by decide)⟩
  unfold TagText.attributes?
  split
  next empty =>
    exact ⟨formed.name, (fun _ member => by cases member), (fun _ member => by cases member),
      fun _ => rfl, by simp [tagOf, StopsAt], fun _ => rfl⟩
  next spaced =>
    refine ⟨formed.name, ?_, formed.attributes, (fun empty => by cases empty), formed.trimmed, ?_⟩
    · intro c member
      rw [mem_singleton.mp member]
      rfl
    · intro unnamed
      rw [formed.named unnamed] at spaced
      exact absurd rfl spaced

theorem tagOf_free (read : TagRead name attributes) :
    0 ∉ (tagOf name attributes).bytes := by
  obtain ⟨tag, -, free, rfl, rfl⟩ := read
  simp only [TagText.bytes, mem_append, not_or] at free
  rw [tagOf_bytes]
  unfold TagText.attributes?
  split
  · simpa using free.1
  · simpa using ⟨free.1, free.2.2⟩

mutual

def markup : Tree → Markup
  | .mk name attributes content children =>
    if !children.isEmpty then .nested (tagOf name attributes) (markups children) [] []
    else
      match content with
      | some content => .textual (tagOf name attributes) [] content [] []
      | none => .selfClosing (tagOf name attributes)

def markups : List Tree → Markups
  | [] => .nil
  | tree :: rest => .cons [] (markup tree) (markups rest)

end

theorem closingText_bytes (name : Bytes) : (closingText name []).bytes = name := by
  simp [closingText, TagText.bytes]

theorem tagOf_name (name : Bytes) (attributes : Option Bytes) :
    (tagOf name attributes).name = name := rfl

mutual

theorem markup_text (tree : Tree) : (markup tree).text = text tree := by
  match tree with
  | .mk name attributes none [] => simp [markup, Markup.text, text, tagOf_bytes, tagEnd]
  | .mk name attributes (some content) [] =>
    simp [markup, Markup.text, text, tagOf_bytes, tagEnd, closingPrefix, closingText_bytes,
      tagOf_name]
  | .mk name attributes content (child :: rest) =>
    have inner := markups_text (child :: rest)
    simp [markup, Markup.text, text, tagOf_bytes, tagEnd, closingPrefix, closingText_bytes,
      tagOf_name, inner]

theorem markups_text (trees : List Tree) : (markups trees).text = listText trees := by
  match trees with
  | [] => rfl
  | tree :: rest =>
    rw [markups, Markups.text, listText, markup_text tree, markups_text rest, nil_append]

end

mutual

theorem markup_tree {level : Nat} (tree : Tree) (accepted : Accepted level tree) :
    (markup tree).tree = tree := by
  match tree, accepted with
  | .mk name attributes none [], _ =>
    simp [markup, Markup.tree, tagOf_name, tagOf_attributes]
  | .mk name attributes (some content) [], _ =>
    simp [markup, Markup.tree, tagOf_name, tagOf_attributes]
  | .mk name attributes content (child :: rest), ⟨_, textual, _, _, all⟩ =>
    have untexted : content = none := by
      cases content with
      | none => rfl
      | some content => cases (textual content rfl).2.2
    have inner := markups_trees (child :: rest) all
    simp [markup, Markup.tree, tagOf_name, tagOf_attributes, inner, untexted]

theorem markups_trees {level : Nat} (trees : List Tree) (accepted : AllAccepted level trees) :
    (markups trees).trees = trees := by
  match trees, accepted with
  | [], _ => rfl
  | tree :: rest, ⟨first, others⟩ =>
    rw [markups, Markups.trees, markup_tree tree first, markups_trees rest others]

end

theorem markups_count (trees : List Tree) : (markups trees).count = trees.length := by
  induction trees with
  | nil => rfl
  | cons tree rest ih => rw [markups, Markups.count, length_cons, ih]

mutual

theorem markup_fits {level : Nat} (tree : Tree) (accepted : Accepted level tree) :
    (markup tree).Fits level := by
  match tree, accepted with
  | .mk name attributes none [], _ => trivial
  | .mk name attributes (some content) [], _ => trivial
  | .mk name attributes content (child :: rest), ⟨_, _, nest, count, all⟩ =>
    refine ⟨nest (by simp), ?_, markups_fit (child :: rest) all⟩
    rw [markups_count]
    exact count

theorem markups_fit {level : Nat} (trees : List Tree) (accepted : AllAccepted level trees) :
    (markups trees).Fit level := by
  match trees, accepted with
  | [], _ => trivial
  | tree :: rest, ⟨first, others⟩ => exact ⟨markup_fits tree first, markups_fit rest others⟩

end

mutual

theorem text_free {level : Nat} (tree : Tree) (accepted : Accepted level tree) : 0 ∉ text tree := by
  match tree, accepted with
  | .mk name attributes content children, ⟨read, textual, _, _, all⟩ =>
    have tagFree := tagOf_free read
    have childrenFree := listText_free children all
    have contentFree : 0 ∉ content.getD [] := by
      cases content with
      | none => nofun
      | some content => exact (textual content rfl).2.1
    rw [tagOf_bytes, mem_append, not_or] at tagFree
    rw [text]
    split
    · split
      all_goals simp [lt, gt, slash, tagFree, childrenFree, contentFree]
    · simp [lt, gt, slash, tagFree]

theorem listText_free {level : Nat} (trees : List Tree) (accepted : AllAccepted level trees) :
    0 ∉ listText trees := by
  match trees, accepted with
  | [], _ => nofun
  | tree :: rest, ⟨first, others⟩ =>
    rw [listText, mem_append, not_or]
    exact ⟨text_free tree first, listText_free rest others⟩

end

mutual

def Printable : Tree → Prop
  | .mk name _ content children =>
    (name = [] → content.isSome = true ∨ children ≠ []) ∧ AllPrintable children

def AllPrintable : List Tree → Prop
  | [] => True
  | tree :: rest => Printable tree ∧ AllPrintable rest

end

theorem closingText_formed (read : TagRead name attributes) : (closingText name []).WellFormed := by
  obtain ⟨tag, opening, -, rfl, -⟩ := read
  exact ⟨opening.formed.name, nofun, nofun, fun _ => rfl, by simp [closingText, StopsAt], fun _ => rfl⟩

mutual

theorem markup_wellFormed {level : Nat} (tree : Tree) (accepted : Accepted level tree)
    (printable : Printable tree) : (markup tree).WellFormed false := by
  match tree, accepted, printable with
  | .mk name attributes none [], ⟨read, _⟩, ⟨filled, _⟩ =>
    have opening := tagOf_opening read
    refine ⟨opening.formed, opening.element, fun _ unnamed => ?_⟩
    simpa using filled unnamed
  | .mk name attributes (some content) [], ⟨read, textual, _⟩, _ =>
    exact ⟨tagOf_opening read, nofun, (textual content rfl).1, nofun, closingText_formed read⟩
  | .mk name attributes content (child :: rest), ⟨read, _, _, _, all⟩, ⟨_, inside⟩ =>
    exact ⟨tagOf_opening read, markups_wellFormed (child :: rest) all inside, .nil,
      closingText_formed read⟩

theorem markups_wellFormed {level : Nat} (trees : List Tree) (accepted : AllAccepted level trees)
    (printable : AllPrintable trees) : (markups trees).WellFormed false := by
  match trees, accepted, printable with
  | [], _, _ => trivial
  | tree :: rest, ⟨first, others⟩, ⟨printable, later⟩ =>
    exact ⟨.nil, markup_wellFormed tree first printable, markups_wellFormed rest others later⟩

end

theorem xmlParseChildren_extends {passes : Nat} {unprefixed : Bool}
    (parsed : xmlParseChildren parseChild passes list parser = (.ok (list', unprefixed), ended)) :
    ParsedNode.trees list.nodes <+: ParsedNode.trees list'.nodes := by
  induction passes generalizing list parser with
  | zero => cases parsed
  | succ passes ih =>
    have step := xmlParseChildren_step parseChild passes list parser
    rw [parsed] at step
    generalize shape : ((.ok (list', unprefixed), ended) : Parsed (ChildList × Bool)) = result
      at step
    cases step with
    | closing => cases shape; exact prefix_rfl
    | recovered => cases shape; exact prefix_rfl
    | failed => cases shape
    | full => cases shape
    | pushed child next list'' more read push =>
      have later := ih shape.symm
      rw [xmlNodeChildPush_nodes push, trees_append] at later
      exact (prefix_append _ _).trans later

theorem listText_opens (trees : List Tree) (rest : Bytes) :
    ∃ word, listText trees ++ lt :: rest = lt :: word := by
  cases trees with
  | nil => exact ⟨rest, rfl⟩
  | cons tree others =>
    cases tree with
    | mk name attributes content children => exact ⟨_, by rw [listText, text]; rfl⟩

theorem text_of_unnamed (read : TagRead name attributes)
    (unnamed : name = []) : text (.mk name attributes none []) = [lt, slash, gt] := by
  obtain ⟨tag, opening, -, rfl, rfl⟩ := read
  simp [text, unnamed, TagText.attributes?, opening.formed.named unnamed]

mutual

-- Whatever becomes of the broken text, the element that holds the unprintable
-- one comes back with other children, or not at all.
theorem unprintable_differs {level : Nat} (tree : Tree) (accepted : Accepted level tree)
    (unprintable : ¬ Printable tree) {depth : Nat} {parser next : XmlParser} {node : ParsedNode}
    {lead rest : Bytes} (controls : Controls lead) (ready : Ready depth parser)
    (same : parser.rest = lead ++ (text tree ++ rest))
    (parsed : xmlParseNode depth parser = (.ok node, next)) : node.tree ≠ tree := by
  match tree, accepted with
  | .mk name attributes content children, ⟨read, textual, _, _, all⟩ =>
    by_cases inside : AllPrintable children
    · obtain ⟨unnamed, textless, childless⟩ : name = [] ∧ content = none ∧ children = [] := by
        rw [Printable] at unprintable
        simp only [inside, and_true, Classical.not_imp, not_or, Bool.not_eq_true,
          Option.isSome_eq_false_iff, Option.isNone_iff_eq_none, not_not] at unprintable
        exact ⟨unprintable.1, unprintable.2.1, unprintable.2.2⟩
      rw [textless, childless, text_of_unnamed read unnamed] at same
      rw [childEnd_of_text ready.positive controls same] at parsed
      cases parsed
    · have parent : children ≠ [] := by
        rintro rfl
        exact inside trivial
      have untexted : content = none := by
        cases content with
        | none => rfl
        | some content => exact absurd (textual content rfl).2.2 parent
      obtain ⟨depth, rfl⟩ := Nat.exists_eq_succ_of_ne_zero (Nat.ne_of_gt ready.positive)
      obtain ⟨closing, split⟩ : ∃ closing, parser.rest = lead ++ lt ::
          ((tagOf name attributes).bytes ++
            (tagEnd false ++ (listText children ++ lt :: closing))) := by
        refine ⟨slash :: (name ++ gt :: rest), ?_⟩
        rw [same, text, tagOf_bytes]
        simp [parent, tagEnd]
      have scanned := xmlParseTagOpen_of_text (tagOf_opening read) false
        (fun closes => by cases closes) (tagOf_free read) controls
        (listText children ++ lt :: closing)
      rw [← split, tagOf_attributes, tagOf_name] at scanned
      rw [Nat.succ_eq_add_one, xmlParseNode_body scanned rfl] at parsed
      have step := parseBody_step (xmlParseNode depth) (openNode parser ⟨name, attributes, false⟩)
        (enterNode parser ⟨name, attributes, false⟩ (listText children ++ lt :: closing))
      rw [parsed] at step
      generalize shape : ((.ok node, next) : Parsed ParsedNode) = result at step
      intro whole
      rw [untexted] at whole
      cases step with
      | contentless => cases shape
      | textual content' rest' textual' scanned' =>
        rw [(closeNode_node shape.symm).1] at whole
        cases whole
      | overflow => cases shape
      | childless => cases shape
      | nested list unprefixed ended found within loop =>
        rw [(closeNode_node shape.symm).1, Opened.node, ParsedNode.tree] at whole
        have atChildren : (deeperParser (enterNode parser ⟨name, attributes, false⟩
            (listText children ++ lt :: closing))).rest = listText children ++ lt :: closing := by
          obtain ⟨word, opens⟩ := listText_opens children closing
          rw [opens]
          exact skip_of_stopsAt (lt_stops word)
        have differ := unprintable_children children all inside (ready.deeper within)
          atChildren loop
        apply differ
        injection whole

theorem unprintable_children {level : Nat} (trees : List Tree)
    (accepted : AllAccepted level trees) (unprintable : ¬ AllPrintable trees) {depth passes : Nat}
    {parser ended : XmlParser} {list list' : ChildList} {unprefixed : Bool} {rest : Bytes}
    (ready : Ready depth parser) (same : parser.rest = listText trees ++ lt :: rest)
    (parsed : xmlParseChildren (xmlParseNode depth) passes list parser =
      (.ok (list', unprefixed), ended)) :
    ParsedNode.trees list'.nodes ≠ ParsedNode.trees list.nodes ++ trees := by
  match trees, accepted with
  | [], _ => exact absurd trivial unprintable
  | tree :: others, ⟨first, later⟩ =>
    cases passes with
    | zero => cases parsed
    | succ passes =>
      have step := xmlParseChildren_step (xmlParseNode depth) passes list parser
      rw [parsed] at step
      generalize shape : ((.ok (list', unprefixed), ended) : Parsed (ChildList × Bool)) = result
        at step
      rw [listText, append_assoc] at same
      cases step with
      | closing => cases shape; simp
      | recovered => cases shape; simp
      | failed => cases shape
      | full => cases shape
      | pushed child next list'' more read push =>
        have grown : ParsedNode.trees list''.nodes =
            ParsedNode.trees list.nodes ++ [child.tree] := by
          rw [xmlNodeChildPush_nodes push, trees_append]
          rfl
        by_cases printable : Printable tree
        · have outcome := parse_markup (markup tree) (markup_wellFormed tree first printable)
            (markup_text tree ▸ text_free tree first) .nil ready
            (same.trans (by rw [markup_text, nil_append]))
          rw [read] at outcome
          cases outcome with
          | accepted _ _ childTree behind =>
            obtain ⟨spaces, spaced, rest'⟩ := behind.skipped
            obtain ⟨word, opens⟩ := listText_opens others rest
            obtain ⟨lead, empty, -⟩ := split_spaces spaced
              (rest'.symm.trans (opens.trans (nil_append _).symm))
            rw [(append_eq_nil_iff.mp empty.symm).1, nil_append] at rest'
            have othersBad : ¬ AllPrintable others := fun fine => unprintable ⟨printable, fine⟩
            have differ := unprintable_children others later othersBad
              ⟨ready.positive, by rw [behind.level]; exact ready.enough, behind.references⟩
              rest'.symm shape.symm
            rw [grown, childTree, markup_tree tree first, append_assoc] at differ
            exact differ
        · have childDiffers := unprintable_differs tree first printable .nil ready same read
          have extended := xmlParseChildren_extends shape.symm
          rw [grown] at extended
          intro whole
          rw [whole, prefix_append_right_inj, cons_prefix_cons] at extended
          exact childDiffers extended.1

end

mutual

/-- The room a document takes when it is written out: an element with something
inside has two tags, any other one. -/
def writtenSize : Tree → Nat
  | .mk name attributes content children =>
    name.length + (attributes.map fun text => text.length + 1).getD 0 +
      if !children.isEmpty then listWrittenSize children + name.length + 5
      else (content.map fun text => text.length + name.length + 5).getD 3

def listWrittenSize : List Tree → Nat
  | [] => 0
  | tree :: rest => writtenSize tree + listWrittenSize rest

end

mutual

theorem text_length (tree : Tree) : (text tree).length = writtenSize tree := by
  match tree with
  | .mk name attributes content [] =>
    rw [text, writtenSize]
    cases attributes <;> cases content <;> simp <;> omega
  | .mk name attributes content (child :: rest) =>
    have inner := listText_length (child :: rest)
    rw [text, writtenSize]
    cases attributes <;> simp [inner] <;> omega

theorem listText_length (trees : List Tree) : (listText trees).length = listWrittenSize trees := by
  match trees with
  | [] => rfl
  | tree :: rest =>
    rw [listText, length_append, text_length tree, listText_length rest, listWrittenSize]

end

/-- The export of every document parsed from the buffer has the length and the
characters of its text, and parsing it again gives the same tree. -/
def RoundTrips (prependPlistInfo : Bool) (buffer : Bytes) : Prop :=
  ∀ document, xmlDocumentParse buffer false = some document →
    ∃ exported, xmlDocumentExport document 0 prependPlistInfo =
        some (exported, (printed prependPlistInfo document.root.tree).length) ∧
      exported.take (printed prependPlistInfo document.root.tree).length =
        printed prependPlistInfo document.root.tree ∧
      ∃ again, xmlDocumentParse (exported.take
          (printed prependPlistInfo document.root.tree).length) false = some again ∧
        again.root.tree = document.root.tree

/-- No element of the parsed document is without a name and empty, and the
document still fits the parser when it is written out. -/
def Reparsable (prependPlistInfo : Bool) (buffer : Bytes) : Prop :=
  ∀ document, xmlDocumentParse buffer false = some document →
    Printable document.root.tree ∧
      (plistInfo prependPlistInfo).length + writtenSize document.root.tree ≤ xmlParserMaxSize

theorem controls_of_parts {text : Bytes} (parts : text = lt :: question :: ((text.drop 2).take 35 ++
      gt :: (lt :: exclamation :: ((text.drop 40).take 99 ++ gt :: []))))
    (first : gt ∉ (text.drop 2).take 35) (second : gt ∉ (text.drop 40).take 99)
    (plain : ¬ [dash, dash] <+: (text.drop 40).take 99) : Controls text := by
  rw [parts]
  exact .instruction first (.declaration second plain .nil)

set_option maxRecDepth 2000 in
theorem plistInfo_controls (prependPlistInfo : Bool) : Controls (plistInfo prependPlistInfo) := by
  cases prependPlistInfo with
  | false => exact .nil
  | true =>
    rw [plistInfo, if_pos rfl, xmlPlistHeader, Plist.ascii_append]
    repeat rw [Plist.ascii_ofList]
    exact controls_of_parts rfl (by decide) (by decide) (by decide)

variable {document : XmlDocument}

theorem document_accepted {buffer : Bytes} (free : 0 ∉ buffer)
    (parsed : xmlDocumentParse buffer false = some document) : Accepted 0 document.root.tree := by
  obtain ⟨root, -⟩ := xmlDocumentParse_eq_some parsed
  exact xmlParseNode_accepted _ _ _ _ root free

theorem plistInfo_length_le (prependPlistInfo : Bool) :
    (plistInfo prependPlistInfo).length ≤ 140 := by
  cases prependPlistInfo with
  | false => exact Nat.zero_le _
  | true =>
    rw [plistInfo, if_pos rfl, xmlPlistHeader, Plist.ascii_append]
    repeat rw [Plist.ascii_ofList]
    simp only [length_append, length_map, length_cons, length_nil]
    decide

theorem document_small {buffer : Bytes} (prependPlistInfo : Bool)
    (parsed : xmlDocumentParse buffer false = some document) :
    XmlExport.Small (document.length + 1)
      (printed prependPlistInfo document.root.tree).length := by
  obtain ⟨-, length, bounded, size⟩ := xmlDocumentParse_bounded parsed
  have limit : xmlParserMaxSize = 33554432 := rfl
  have pool : xmlExportMinAllocationSize = 4096 := rfl
  have header := plistInfo_length_le prependPlistInfo
  rw [XmlExport.Small, u32_val, printed, length_append]
  omega

theorem xmlDocumentParse_printed (prependPlistInfo : Bool) {tree : Tree}
    (accepted : Accepted 0 tree) (printable : Printable tree)
    (fits : (printed prependPlistInfo tree).length ≤ xmlParserMaxSize) :
    ∃ document, xmlDocumentParse (printed prependPlistInfo tree) false = some document ∧
      document.root.tree = tree := by
  have outcome := @parse_markup false (markup tree) (xmlParserNestLevel + 1)
    (initialParser (printed prependPlistInfo tree) false) (plistInfo prependPlistInfo) []
    (markup_wellFormed tree accepted printable) (markup_text tree ▸ text_free tree accepted)
    (plistInfo_controls prependPlistInfo) (initial_ready _)
    (by rw [markup_text, append_nil]; rfl)
  have sized : ¬ ((printed prependPlistInfo tree).length = 0 ∨
      xmlParserMaxSize < (printed prependPlistInfo tree).length) := by
    cases tree with
    | mk name attributes content children =>
      rw [not_or]
      exact ⟨by rw [printed, text]; simp, Nat.not_lt.mpr fits⟩
  rw [xmlDocumentParse, if_neg sized, parseRoot]
  generalize xmlParseNode (xmlParserNestLevel + 1)
    (initialParser (printed prependPlistInfo tree) false) = result at outcome
  cases outcome with
  | accepted node next same => exact ⟨_, rfl, same.trans (markup_tree tree accepted)⟩
  | refused failure stopped unfit => exact absurd (markup_fits tree accepted) unfit

theorem printed_length (prependPlistInfo : Bool) (tree : Tree) :
    (printed prependPlistInfo tree).length =
      (plistInfo prependPlistInfo).length + writtenSize tree := by
  rw [printed, length_append, text_length]

theorem xml_document_export_round_trip_iff (prependPlistInfo : Bool) (buffer : Bytes)
    (free : 0 ∉ buffer) :
    RoundTrips prependPlistInfo buffer ↔ Reparsable prependPlistInfo buffer := by
  constructor
  · intro trips document parsed
    have accepted := document_accepted free parsed
    obtain ⟨exported, -, contents, again, reparsed, same⟩ := trips document parsed
    rw [contents] at reparsed
    obtain ⟨root, -, -, bounded⟩ := xmlDocumentParse_eq_some reparsed
    refine ⟨?_, printed_length prependPlistInfo document.root.tree ▸ bounded⟩
    by_contra unprintable
    exact unprintable_differs document.root.tree accepted unprintable
      (plistInfo_controls prependPlistInfo) (initial_ready _)
      (congrArg _ (append_nil _).symm) root same
  · intro reparsable document parsed
    obtain ⟨printable, fits⟩ := reparsable document parsed
    obtain ⟨exported, written, contents⟩ :=
      xmlDocumentExport_text prependPlistInfo (document_small prependPlistInfo parsed)
    obtain ⟨again, reparsed, same⟩ := xmlDocumentParse_printed prependPlistInfo
      (document_accepted free parsed) printable
      (printed_length prependPlistInfo document.root.tree ▸ fits)
    exact ⟨exported, written, contents, again, by rw [contents]; exact reparsed, same⟩

theorem xml_document_export_round_trip_sample :
    (xmlDocumentParse nestedText false).isSome ∧
      ∀ prependPlistInfo,
        RoundTrips prependPlistInfo nestedText ↔ Reparsable prependPlistInfo nestedText :=
  ⟨by decide, fun prependPlistInfo =>
    xml_document_export_round_trip_iff prependPlistInfo nestedText (by decide)⟩

def unnamedText : Bytes := Plist.ascii "<></>"

/-- The export of `<></>` is `</>`, which no longer parses. -/
theorem unnamed_element_lost :
    0 ∉ unnamedText ∧ ∃ document, xmlDocumentParse unnamedText false = some document ∧
      ∃ exported, xmlDocumentExport document 0 false = some (exported, 3) ∧
        exported.take 3 = Plist.ascii "</>" ∧ xmlDocumentParse (exported.take 3) false = none := by
  refine ⟨by decide, ⟨5, .mk 0 [] none none none [], none⟩, rfl, _, rfl, rfl, rfl⟩

end OpenCore.XmlRoundTrip
