import OpenCore.XmlNesting
import OpenCore.XmlExport

/-!
What the parser gives for any buffer, with NUL bytes or without: strings that end
before the first NUL, and a tree whose text is at most twice as long as the
characters it was read from. The exporter can print such a tree in 32 bits.
-/

namespace OpenCore.XmlStrings

open ByteBuffer XmlText XmlParse XmlGrammar XmlSteps XmlMarkup XmlNesting XmlExport List

mutual

def Ended : Tree → Prop
  | .mk name attributes content children =>
    0 ∉ name ∧ (∀ text ∈ attributes, 0 ∉ text) ∧ (∀ text ∈ content, 0 ∉ text) ∧ AllEnded children

def AllEnded : List Tree → Prop
  | [] => True
  | tree :: rest => Ended tree ∧ AllEnded rest

end

theorem allEnded_append {front back : List Tree} :
    AllEnded (front ++ back) ↔ AllEnded front ∧ AllEnded back := by
  induction front with
  | nil => simp [AllEnded]
  | cons tree rest ih => rw [cons_append, AllEnded, AllEnded, ih, and_assoc]

theorem listText_append (front back : List Tree) :
    listText (front ++ back) = listText front ++ listText back := by
  induction front with
  | nil => rfl
  | cons tree rest ih => rw [cons_append, listText, listText, ih, append_assoc]

def tagLength (name : Bytes) (attributes : Option Bytes) : Nat :=
  name.length + ((attributes.map (32 :: ·)).getD []).length

theorem tagLength_le (tag : TagText) : tagLength tag.name tag.attributes? ≤ tag.bytes.length := by
  unfold tagLength TagText.attributes? TagText.bytes
  split
  · simp
  next spaced =>
    have positive : 0 < tag.spaces.length := by
      rw [length_pos_iff]
      simpa using spaced
    simp only [Option.map_some, Option.getD_some, length_cons, length_append]
    omega

theorem cString_ended (text : Bytes) : 0 ∉ cString text := by
  intro member
  have stops := mem_takeWhile_imp member
  simp at stops

theorem cString_length_le (text : Bytes) : (cString text).length ≤ text.length :=
  ( takeWhile_prefix _).length_le

theorem length_of_peek {rest : Bytes} {index : Nat} {c : UInt8}
    (peeked : xmlParserPeek rest index = c) (nonzero : c ≠ 0) : index < rest.length := by
  by_contra short
  apply nonzero
  rw [← peeked, xmlParserPeek, getD_eq_getElem?_getD,
    getElem?_eq_none (Nat.le_of_not_lt short), Option.getD_none]

variable {rest after : Bytes} {tag : Tag}

theorem xmlParseTagEnd_size {opening : Bool}
    (scanned : xmlParseTagEnd opening rest = (.ok tag, after)) :
    (0 ∉ tag.name ∧ ∀ text ∈ tag.attributes, 0 ∉ text) ∧
      tagLength tag.name tag.attributes + (tagEnd tag.selfClosing).length + after.length ≤
        rest.length := by
  rw [xmlParseTagEnd_eq] at scanned
  simp only at scanned
  have body := tagText_bytes (rest.takeWhile tagByte)
  have split := congrArg List.length (takeWhile_append_dropWhile (p := tagByte) (l := rest))
  rw [length_append] at split
  generalize rest.takeWhile tagByte = word at scanned body split
  generalize rest.dropWhile tagByte = behind at scanned split
  have room := tagLength_le (tagText word)
  rw [body] at room
  have cut : tagLength (cString (tagText word).name)
      (if opening then (tagText word).attributes?.map cString else none) ≤ word.length := by
    refine le_trans ?_ room
    have name := cString_length_le (tagText word).name
    unfold tagLength
    cases opening with
    | false =>
      simp only [Bool.false_eq_true, if_false, Option.map_none, Option.getD_none, length_nil]
      omega
    | true =>
      cases (tagText word).attributes? with
      | none =>
        simp only [if_true, Option.map_none, Option.getD_none, length_nil]
        omega
      | some attributes =>
        have shorter := cString_length_le attributes
        simp only [if_true, Option.map_some, Option.getD_some, length_cons]
        omega
  have strings : 0 ∉ cString (tagText word).name ∧
      ∀ text ∈ (if opening then (tagText word).attributes?.map cString else none), 0 ∉ text := by
    refine ⟨cString_ended _, ?_⟩
    intro text member
    cases opening with
    | false => cases member
    | true =>
      obtain ⟨attributes, -, rfl⟩ := Option.map_eq_some_iff.mp member
      exact cString_ended _
  split at scanned
  · cases scanned
  split at scanned
  · split at scanned
    · cases scanned
    split at scanned
    · cases scanned
    next closes =>
      have second := length_of_peek (not_not.mp closes) (by decide)
      cases scanned
      refine ⟨strings, ?_⟩
      simp only [tagEnd, if_true, length_cons, length_nil, length_drop]
      omega
  split at scanned
  · cases scanned
  next closes =>
    have first := length_of_peek (not_not.mp closes) (by decide)
    cases scanned
    refine ⟨strings, ?_⟩
    simp only [tagEnd, Bool.false_eq_true, if_false, length_cons, length_nil, length_drop]
    omega

theorem xmlParseTagOpen_size (scanned : xmlParseTagOpen rest = (.ok tag, after)) :
    (0 ∉ tag.name ∧ ∀ text ∈ tag.attributes, 0 ∉ text) ∧
      tagLength tag.name tag.attributes + (tagEnd tag.selfClosing).length + 1 + after.length ≤
        rest.length := by
  have result := xmlParseTagOpen_result rest
  rw [scanned] at result
  generalize shape : ((.ok tag, after) : Scanned Tag) = scanned' at result
  cases result with
  | failed failure after' other behind => cases shape
  | childEnd lead inner controls same closing => cases shape
  | opened lead inner controls same opens =>
    obtain ⟨strings, size⟩ := xmlParseTagEnd_size shape.symm
    refine ⟨strings, ?_⟩
    rw [same, length_append, length_cons]
    omega

theorem xmlParseTagClose_size {unprefixed : Bool}
    (scanned : xmlParseTagClose unprefixed rest = (.ok tag, after)) :
    tag.name.length + 2 + after.length ≤ rest.length := by
  have skipped : (xmlSkipWhitespace rest).length ≤ rest.length := (dropWhile_suffix _).length_le
  have ended : ∀ start : Bytes, start.length + 1 ≤ rest.length →
      xmlParseTagEnd false start = (.ok tag, after) → tag.name.length + 2 + after.length ≤ rest.length := by
    intro start shorter closed
    obtain ⟨-, size⟩ := xmlParseTagEnd_size closed
    have brackets : 1 ≤ (tagEnd tag.selfClosing).length := by cases tag.selfClosing <;> decide
    rw [tagLength] at size
    omega
  rw [xmlParseTagClose] at scanned
  split at scanned
  · split at scanned
    · cases scanned
    next found =>
      have first := length_of_peek (not_not.mp found) (by decide)
      exact ended _ (by rw [length_drop]; omega) scanned
  split at scanned
  · cases scanned
  next found =>
    split at scanned
    · cases scanned
    next slashed =>
      have second := length_of_peek (not_not.mp slashed) (by decide)
      exact ended _ (by rw [length_drop]; omega) scanned

theorem xmlParseContent_size {rest after content : Bytes}
    (scanned : xmlParseContent rest = (.ok content, after)) :
    0 ∉ content ∧ content.length + 1 + after.length ≤ rest.length := by
  have skipped : (xmlSkipWhitespace rest).length ≤ rest.length := (dropWhile_suffix _).length_le
  rw [xmlParseContent] at scanned
  have split' := congrArg List.length
    (takeWhile_append_dropWhile (p := (· != lt)) (l := xmlSkipWhitespace rest))
  rw [length_append] at split'
  split at scanned
  · cases scanned
  next found =>
    have first := length_of_peek (not_not.mp found) (by decide)
    cases scanned
    refine ⟨cString_ended _, ?_⟩
    have cut := cString_length_le (((xmlSkipWhitespace rest).takeWhile (· != lt)).rdropWhile isAsciiSpace)
    have trimmed : (((xmlSkipWhitespace rest).takeWhile (· != lt)).rdropWhile isAsciiSpace).length ≤
        ((xmlSkipWhitespace rest).takeWhile (· != lt)).length := ( rdropWhile_prefix _ _).length_le
    rw [length_drop]
    omega

/-- The strings of a parsed node end, and its text is bounded by what was consumed. -/
def Bounded (parse : XmlParser → Parsed ParsedNode) : Prop :=
  ∀ parser node next, parse parser = (.ok node, next) →
    Ended node.tree ∧ (text node.tree).length + 2 * next.rest.length ≤ 2 * parser.rest.length

variable {parseChild : XmlParser → Parsed ParsedNode}

theorem xmlParseChildren_bounded
    (advances : ∀ parser, Advances parser (parseChild parser).2) (bounded : Bounded parseChild)
    {passes : Nat} {list list' : ChildList} {unprefixed : Bool} {parser ended : XmlParser}
    (parsed : xmlParseChildren parseChild passes list parser = (.ok (list', unprefixed), ended))
    (strings : AllEnded (ParsedNode.trees list.nodes)) :
    AllEnded (ParsedNode.trees list'.nodes) ∧
      (listText (ParsedNode.trees list'.nodes)).length + 2 * ended.rest.length ≤
        (listText (ParsedNode.trees list.nodes)).length + 2 * parser.rest.length := by
  induction passes generalizing list parser with
  | zero => cases parsed
  | succ passes ih =>
    have advanced := advances parser
    have step := xmlParseChildren_step parseChild passes list parser
    rw [parsed] at step
    generalize shape : ((.ok (list', unprefixed), ended) : Parsed (ChildList × Bool)) = result
      at step
    cases step with
    | closing found =>
      cases shape
      exact ⟨strings, le_refl _⟩
    | recovered failure stopped more failed found =>
      cases shape
      rw [failed] at advanced
      have shorter : stopped.rest.length ≤ parser.rest.length := advanced.rest.length_le
      exact ⟨strings, by simp only; omega⟩
    | failed => cases shape
    | full => cases shape
    | pushed child next list'' more read push =>
      obtain ⟨childEnded, size⟩ := bounded parser child next read
      have trees : ParsedNode.trees list''.nodes = ParsedNode.trees list.nodes ++ [child.tree] := by
        rw [xmlNodeChildPush_nodes push, trees_append]
        rfl
      obtain ⟨all, size'⟩ := ih shape.symm (by
        rw [trees, allEnded_append]
        exact ⟨strings, childEnded, trivial⟩)
      refine ⟨all, ?_⟩
      rw [trees, listText_append, length_append] at size'
      simp only [listText, append_nil] at size'
      omega

theorem parseBody_bounded
    (advances : ∀ parser, Advances parser (parseChild parser).2) (bounded : Bounded parseChild)
    {opened : Opened} {parser next : XmlParser} {node : ParsedNode}
    (parsed : parseBody parseChild opened parser = (.ok node, next))
    (tag : 0 ∉ opened.name ∧ ∀ text ∈ opened.attributes, 0 ∉ text) :
    Ended node.tree ∧ (text node.tree).length + 2 * next.rest.length ≤
      2 * parser.rest.length + tagLength opened.name opened.attributes + 3 := by
  have step := parseBody_step parseChild opened parser
  rw [parsed] at step
  generalize shape : ((.ok node, next) : Parsed ParsedNode) = result at step
  cases step with
  | contentless => cases shape
  | textual content rest textual scanned =>
    obtain ⟨contentEnded, contentSize⟩ := xmlParseContent_size scanned
    obtain ⟨rfl, tag', rest', closing, rfl, -⟩ := closeNode_node shape.symm
    have closeSize := xmlParseTagClose_size closing.scanned
    rw [← closing.matching] at closeSize
    simp only at closeSize
    refine ⟨⟨tag.1, tag.2, ?_, trivial⟩, ?_⟩
    · rintro _ ⟨⟩
      exact contentEnded
    · rw [Opened.node, ParsedNode.tree, ParsedNode.trees, text]
      simp only [isEmpty_nil, Bool.not_true, Option.isSome_some, Bool.or_true, if_true,
        Bool.false_eq_true, if_false, Option.getD_some, length_cons, length_append,
        length_nil, tagLength]
      omega
  | overflow => cases shape
  | childless => cases shape
  | nested list unprefixed ended found within children =>
    obtain ⟨rfl, tag', rest', closing, rfl, -⟩ := closeNode_node shape.symm
    have closeSize := xmlParseTagClose_size closing.scanned
    rw [← closing.matching] at closeSize
    obtain ⟨all, size⟩ := xmlParseChildren_bounded advances bounded children trivial
    refine ⟨⟨tag.1, tag.2, (fun _ member => by cases member), all⟩, ?_⟩
    rw [Opened.node, ParsedNode.tree, text]
    simp only [deeperParser, shallowerParser, ChildList.absent, ParsedNode.trees, listText,
      length_nil] at size closeSize
    generalize ParsedNode.trees list.nodes = trees at size
    cases trees with
    | nil =>
      simp only [isEmpty_nil, Bool.not_true, Option.isSome_none, Bool.or_false,
        Bool.false_eq_true, if_false, length_cons, length_append, length_nil, tagLength]
      omega
    | cons tree rest =>
      simp only [isEmpty_cons, Bool.not_false, Bool.true_or, if_true, length_cons,
        length_append, length_nil, tagLength]
      omega

theorem xmlParseNode_bounded (depth : Nat) : Bounded (xmlParseNode depth) := by
  induction depth with
  | zero => exact fun parser node next parsed => by cases parsed
  | succ depth ih =>
    intro parser node next parsed
    have step := xmlParseNode_step depth parser
    rw [parsed] at step
    generalize shape : ((.ok node, next) : Parsed ParsedNode) = result at step
    have skipped : ∀ rest, (xmlSkipWhitespace rest).length ≤ rest.length :=
      fun rest => (dropWhile_suffix _).length_le
    cases step with
    | unopened => cases shape
    | selfClosing tag rest scanned closes =>
      cases shape
      obtain ⟨strings, size⟩ := xmlParseTagOpen_size scanned
      have shorter := skipped rest
      refine ⟨⟨strings.1, strings.2, nofun, trivial⟩, ?_⟩
      rw [Opened.node, ParsedNode.tree, ParsedNode.trees, text]
      rw [closes, tagLength] at size
      simp only [tagEnd, if_true, length_cons, length_nil] at size
      simp only [isEmpty_nil, Bool.not_true, Option.isSome_none, Bool.or_false,
        Bool.false_eq_true, if_false, length_cons, length_append, length_nil, openNode, enterNode]
      omega
    | body tag rest scanned opens =>
      obtain ⟨strings, size⟩ := xmlParseTagOpen_size scanned
      have shorter := skipped rest
      obtain ⟨ended, length⟩ := parseBody_bounded (xmlParseNode_advances depth) ih shape.symm strings
      refine ⟨ended, ?_⟩
      rw [opens] at size
      simp only [tagEnd, Bool.false_eq_true, if_false, length_cons, length_nil] at size
      simp only [openNode, enterNode] at length
      omega

/-- A parsed document has ended strings, and its text is at most twice as long as
the buffer, which the parser limits. -/
theorem xmlDocumentParse_bounded {buffer : Bytes} {document : XmlDocument}
    (parsed : xmlDocumentParse buffer false = some document) :
    Ended document.root.tree ∧ document.length = buffer.length ∧ buffer.length ≤ xmlParserMaxSize ∧
      (text document.root.tree).length ≤ 2 * buffer.length := by
  obtain ⟨root, -, length, bounded⟩ := xmlDocumentParse_eq_some parsed
  obtain ⟨ended, size⟩ := xmlParseNode_bounded _ _ _ _ root
  have start : (initialParser buffer false).rest = buffer := rfl
  rw [start] at size
  exact ⟨ended, length, bounded, by omega⟩

mutual

theorem text_ended (tree : Tree) (ended : Ended tree) : 0 ∉ text tree := by
  match tree, ended with
  | .mk name attributes content children, ⟨nameEnded, attributesEnded, contentEnded, all⟩ =>
    have inner : 0 ∉ (if !children.isEmpty then listText children else content.getD []) := by
      split
      · exact listText_ended children all
      · cases content with
        | none => exact not_mem_nil
        | some content => exact contentEnded content rfl
    have spaced : 0 ∉ (attributes.map (32 :: ·)).getD [] := by
      cases attributes with
      | none => exact not_mem_nil
      | some attributes =>
        have rest := attributesEnded attributes rfl
        simpa using rest
    have marks : (0 : UInt8) ≠ lt ∧ (0 : UInt8) ≠ gt ∧ (0 : UInt8) ≠ slash := by decide
    rw [text]
    split
    · simp only [mem_cons, mem_append, marks, nameEnded, spaced, inner,
        not_mem_nil, or_self, not_false_eq_true]
    · simp only [mem_cons, mem_append, marks, nameEnded, spaced,
        not_mem_nil, or_self, not_false_eq_true]

theorem listText_ended (trees : List Tree) (ended : AllEnded trees) : 0 ∉ listText trees := by
  match trees, ended with
  | [], _ => exact not_mem_nil
  | tree :: rest, ⟨first, others⟩ =>
    rw [listText, mem_append, not_or]
    exact ⟨text_ended tree first, listText_ended rest others⟩

end

theorem cString_of_take {buffer word : Bytes} (holds : buffer.take word.length = word)
    (ended : 0 ∉ word) (stop : buffer[word.length]? = some 0) : cString buffer = word := by
  obtain ⟨inside, value⟩ := List.getElem?_eq_some_iff.mp stop
  have split : buffer = word ++ buffer.drop word.length := by
    have whole := take_append_drop word.length buffer
    rw [holds] at whole
    exact whole.symm
  have rest : buffer.drop word.length = 0 :: buffer.drop (word.length + 1) := by
    rw [drop_eq_getElem_cons inside, value]
  rw [split, rest, cString, takeWhile_append_of_pos]
  · simp
  · intro c member
    simp only [bne_iff_ne, ne_eq]
    intro zero
    exact ended (zero ▸ member)

end OpenCore.XmlStrings
