import OpenCore.XmlNesting

/-!
References to nodes of the document. A reference is recorded as soon as its
element is closed, while the elements around it are still being read; when one
of these fails, its nodes are freed and the reference is not taken back. The
document ends up without dangling pointers if no parent carries on behind a
child in which a reference was recorded.
-/

namespace OpenCore.XmlReferences

open ByteBuffer XmlParse XmlSteps XmlNesting List

def listed (references : Option References) : List Nat := (references.getD []).filterMap id

variable {references : Option References}

theorem mem_listed {a : Nat} :
    a ∈ listed references ↔ some a ∈ references.getD [] := by
  simp [listed]

theorem xmlPushReference_listed {references pushed : References} {node number : Nat}
    (push : xmlPushReference references node number = some pushed) :
    node ∈ listed (some pushed) ∧
      ∀ a ∈ listed (some pushed), a = node ∨ a ∈ listed (some references) := by
  rw [xmlPushReference] at push
  split at push
  · cases push
  cases push
  constructor
  · rw [mem_listed, Option.getD_some]
    apply mem_set
    rw [length_append, length_replicate]
    omega
  · intro a member
    rw [mem_listed, Option.getD_some] at member
    rcases mem_or_eq_of_mem_set member with old | new
    · rcases mem_append.mp old with kept | padding
      · exact .inr (mem_listed.mpr kept)
      · cases (mem_replicate.mp padding).2
    · exact .inl (Option.some.inj new)

theorem xmlNodeReal_listed {attributes : Option Bytes} {a : Nat}
    (real : xmlNodeReal references attributes = some a) : a ∈ listed references := by
  cases references with
  | none => cases real
  | some entries =>
    cases attributes with
    | none => cases real
    | some attributes =>
      rw [xmlNodeReal, Option.bind_some, Option.bind_some] at real
      obtain ⟨number, -, found⟩ := Option.bind_eq_some_iff.mp real
      rw [mem_listed]
      exact mem_of_getElem? (Option.join_eq_some_iff.mp found)

/-- A recovery keeps the references older than the child, and a change it made to
them is an entry that points into the child. -/
def Dated : XmlEvent → Prop
  | .recovered _ before after first next => (∀ a ∈ listed before, a < first) ∧
      (after = before ∨ ∃ a ∈ listed after, first ≤ a ∧ a < next)
  | _ => True

/-- The references are to nodes there are, and those recorded since `before` are
to nodes from `base` on. -/
structure Recording (base : Nat) (before : Option References) (parser : XmlParser) : Prop where
  bounded : ∀ a ∈ listed parser.references, a < parser.nodes
  dated : ∀ event ∈ parser.trace, Dated event
  recorded : parser.references = before ∨ ∃ a ∈ listed parser.references, base ≤ a

def KeepsRecord (parse : XmlParser → Parsed ParsedNode) : Prop :=
  ∀ base before parser, base ≤ parser.nodes → Recording base before parser →
    Recording base before (parse parser).2

section Record
variable {base : Nat} {before : Option References} {parser : XmlParser}
variable {parseChild : XmlParser → Parsed ParsedNode} {opened : Opened}

theorem Recording.closed (recording : Recording base before parser) (unprefixed : Bool)
    (rest : Bytes) : Recording base before (closedParser unprefixed parser rest) where
  bounded := recording.bounded
  dated := by
    intro event member
    rcases mem_cons.mp member with rfl | old
    · trivial
    · exact recording.dated event old
  recorded := recording.recorded

theorem closeNode_records (recording : Recording base before parser)
    (fresh : base ≤ opened.address) (made : opened.address < parser.nodes)
    (content : Option Bytes) (children : List ParsedNode) (unprefixed : Bool)
    (number : Option Nat) :
    Recording base before (closeNode opened content children unprefixed number parser).2 := by
  have step := closeNode_step opened content children unprefixed number parser
  generalize closeNode opened content children unprefixed number parser = result at step
  cases step with
  | unclosed failure rest => exact ⟨recording.bounded, recording.dated, recording.recorded⟩
  | mismatch tag rest => exact recording.closed unprefixed rest
  | rejected tag rest => exact recording.closed unprefixed rest
  | referenced tag rest references pushed wanted closing present asked push =>
    obtain ⟨new, others⟩ := xmlPushReference_listed push
    refine ⟨?_, (recording.closed unprefixed rest).dated, .inr ⟨opened.address, new, fresh⟩⟩
    intro a member
    rcases others a member with rfl | old
    · exact made
    · exact recording.bounded a (present ▸ old)
  | unreferenced tag rest => exact recording.closed unprefixed rest

theorem xmlParseChildren_records
    (keeps : KeepsRecord parseChild) (advances : ∀ parser, Advances parser (parseChild parser).2)
    (passes : Nat) (list : ChildList) (older : base ≤ parser.nodes)
    (recording : Recording base before parser) :
    Recording base before (xmlParseChildren parseChild passes list parser).2 := by
  induction passes generalizing list parser with
  | zero => exact recording
  | succ passes ih =>
    have later := keeps base before parser older recording
    have inside := keeps parser.nodes parser.references parser (Nat.le_refl _)
      ⟨recording.bounded, recording.dated, .inl rfl⟩
    have advanced := advances parser
    have step := xmlParseChildren_step parseChild passes list parser
    generalize xmlParseChildren parseChild (passes + 1) list parser = result at step
    cases step with
    | closing => exact recording
    | recovered failure stopped more parsed found =>
      rw [parsed] at later inside
      refine ⟨later.bounded, ?_, later.recorded⟩
      intro event member
      rcases mem_cons.mp member with rfl | old
      · refine ⟨recording.bounded, ?_⟩
        rcases inside.recorded with same | ⟨a, member, new⟩
        · exact .inl same
        · exact .inr ⟨a, member, new, inside.bounded a member⟩
      · exact later.dated event old
    | failed failure stopped more parsed other =>
      rw [parsed] at later
      exact later
    | full child next more parsed =>
      rw [parsed] at later
      exact later
    | pushed child next list' more parsed =>
      rw [parsed] at later advanced
      exact ih list' (older.trans advanced.nodes) later

theorem parseBody_records
    (keeps : KeepsRecord parseChild) (advances : ∀ parser, Advances parser (parseChild parser).2)
    (fresh : base ≤ opened.address) (made : opened.address < parser.nodes)
    (recording : Recording base before parser) :
    Recording base before (parseBody parseChild opened parser).2 := by
  have deeper : Recording base before (deeperParser parser) :=
    ⟨recording.bounded, recording.dated, recording.recorded⟩
  have older : base ≤ (deeperParser parser).nodes := fresh.trans (Nat.le_of_lt made)
  have loop := xmlParseChildren_records keeps advances (parser.rest.length + 1) .absent older deeper
  have advanced := xmlParseChildren_advances advances (parser.rest.length + 1) .absent
    (deeperParser parser)
  have step := parseBody_step parseChild opened parser
  generalize parseBody parseChild opened parser = result at step
  cases step with
  | contentless failure rest => exact ⟨recording.bounded, recording.dated, recording.recorded⟩
  | textual content rest =>
    have behind : Recording base before { parser with rest := rest } :=
      ⟨recording.bounded, recording.dated, recording.recorded⟩
    exact closeNode_records behind fresh made _ _ _ _
  | overflow => exact deeper
  | childless failure stopped found within parsed =>
    rw [parsed] at loop
    exact loop
  | nested list unprefixed ended found within parsed =>
    rw [parsed] at loop advanced
    have behind : Recording base before (shallowerParser ended) :=
      ⟨loop.bounded, loop.dated, loop.recorded⟩
    exact closeNode_records behind fresh (Nat.lt_of_lt_of_le made advanced.nodes) _ _ _ _

end Record

theorem xmlParseNode_records (depth : Nat) : KeepsRecord (xmlParseNode depth) := by
  induction depth with
  | zero => exact fun base before parser older recording => recording
  | succ depth ih =>
    intro base before parser older recording
    have entered : ∀ tag rest, Recording base before (enterNode parser tag rest) := by
      intro tag rest
      refine ⟨fun a member => Nat.lt_succ_of_lt (recording.bounded a member), ?_,
        recording.recorded⟩
      intro event member
      rcases mem_cons.mp member with rfl | old
      · trivial
      · exact recording.dated event old
    have step := xmlParseNode_step depth parser
    generalize xmlParseNode (depth + 1) parser = result at step
    cases step with
    | unopened failure rest => exact ⟨recording.bounded, recording.dated, recording.recorded⟩
    | selfClosing tag rest => exact entered tag rest
    | body tag rest =>
      exact parseBody_records ih (xmlParseNode_advances depth) older (Nat.lt_succ_self _)
        (entered tag rest)

def Untouched : XmlEvent → Prop
  | .recovered _ before after _ _ => after = before
  | _ => True

def Released : XmlEvent → Prop
  | .recovered _ _ after first next => ∀ a ∈ listed after, ¬ (first ≤ a ∧ a < next)
  | _ => True

theorem Dated.untouched_iff {event : XmlEvent} (dated : Dated event) :
    Untouched event ↔ Released event := by
  cases event with
  | opened => exact Iff.rfl
  | closed => exact Iff.rfl
  | recovered failure before after first next =>
    constructor
    · rintro same a member ⟨new, -⟩
      cases same
      exact absurd (dated.1 a member) (Nat.not_lt.mpr new)
    · intro released
      rcases dated.2 with same | ⟨a, member, within⟩
      · exact same
      · exact absurd within (released a member)

structure Live (outside : Nat → Prop) (references : Option References)
    (nodes : List ParsedNode) : Prop where
  listed : ∀ a ∈ listed references, outside a ∨ a ∈ ParsedNode.listAddresses nodes
  reals : ∀ a ∈ ParsedNode.listReals nodes, outside a ∨ a ∈ ParsedNode.listAddresses nodes

theorem listAddresses_append (front back : List ParsedNode) :
    ParsedNode.listAddresses (front ++ back) =
      ParsedNode.listAddresses front ++ ParsedNode.listAddresses back := by
  induction front with
  | nil => rfl
  | cons node rest ih =>
    rw [cons_append, ParsedNode.listAddresses, ParsedNode.listAddresses, ih, append_assoc]

theorem listReals_append (front back : List ParsedNode) :
    ParsedNode.listReals (front ++ back) =
      ParsedNode.listReals front ++ ParsedNode.listReals back := by
  induction front with
  | nil => rfl
  | cons node rest ih =>
    rw [cons_append, ParsedNode.listReals, ParsedNode.listReals, ih, append_assoc]

/-- References to nodes outside stay so, and new ones are to the node read. -/
def KeepsLive (parse : XmlParser → Parsed ParsedNode) : Prop :=
  ∀ outside parser node next, parse parser = (.ok node, next) →
    (∀ event ∈ next.trace, Untouched event) → (∀ a ∈ listed parser.references, outside a) →
    Live outside next.references [node]

section Alive
variable {outside : Nat → Prop}
variable {children : List ParsedNode} {content : Option Bytes} {unprefixed : Bool} {opened : Opened}

theorem node_live {references : Option References} (referred : ∀ a ∈ listed references,
      a = opened.address ∨ outside a ∨ a ∈ ParsedNode.listAddresses children)
    (below : ∀ a ∈ ParsedNode.listReals children, outside a ∨ a ∈ ParsedNode.listAddresses children)
    (real : ∀ a, opened.real = some a → outside a) :
    Live outside references [opened.node content children] := by
  have addresses : ParsedNode.listAddresses [opened.node content children] =
      opened.address :: ParsedNode.listAddresses children := by
    simp [ParsedNode.listAddresses, Opened.node, ParsedNode.addresses]
  have reals : ParsedNode.listReals [opened.node content children] =
      opened.real.toList ++ ParsedNode.listReals children := by
    simp [ParsedNode.listReals, Opened.node, ParsedNode.reals]
  constructor
  · intro a member
    rw [addresses, mem_cons]
    rcases referred a member with own | out | inside
    · exact .inr (.inl own)
    · exact .inl out
    · exact .inr (.inr inside)
  · intro a member
    rw [reals, mem_append, Option.mem_toList] at member
    rw [addresses, mem_cons]
    rcases member with own | inside
    · exact .inl (real a own)
    · rcases below a inside with out | here
      · exact .inl out
      · exact .inr (.inr here)

theorem closeNode_live {number : Option Nat} {parser next : XmlParser} {node : ParsedNode}
    (closed : closeNode opened content children unprefixed number parser = (.ok node, next))
    (live : Live outside parser.references children)
    (real : ∀ a, opened.real = some a → outside a) : Live outside next.references [node] := by
  have step := closeNode_step opened content children unprefixed number parser
  rw [closed] at step
  generalize shape : ((.ok node, next) : Parsed ParsedNode) = result at step
  cases step with
  | unclosed => cases shape
  | mismatch => cases shape
  | rejected => cases shape
  | referenced tag rest references pushed wanted closing present asked push =>
    cases shape
    refine node_live (fun a member => ?_) live.reals real
    rcases (xmlPushReference_listed push).2 a member with own | old
    · exact .inl own
    · exact .inr (live.listed a (present ▸ old))
  | unreferenced tag rest closing =>
    cases shape
    exact node_live (fun a member => .inr (live.listed a member)) live.reals real

-- What is live for a child is what is live for the loop and the children so far.
theorem xmlParseChildren_live {parseChild : XmlParser → Parsed ParsedNode}
    (advances : ∀ parser, Advances parser (parseChild parser).2) (keeps : KeepsLive parseChild)
    {passes : Nat} {list list' : ChildList} {parser ended : XmlParser}
    (parsed : xmlParseChildren parseChild passes list parser = (.ok (list', unprefixed), ended))
    (untouched : ∀ event ∈ ended.trace, Untouched event)
    (live : Live outside parser.references list.nodes) :
    Live outside ended.references list'.nodes := by
  induction passes generalizing list parser with
  | zero => cases parsed
  | succ passes ih =>
    have step := xmlParseChildren_step parseChild passes list parser
    rw [parsed] at step
    generalize shape : ((.ok (list', unprefixed), ended) : Parsed (ChildList × Bool)) = result
      at step
    cases step with
    | closing =>
      cases shape
      exact live
    | recovered failure stopped more failed found =>
      cases shape
      have same : stopped.references = parser.references := untouched _ mem_cons_self
      refine ⟨?_, live.reals⟩
      rw [same]
      exact live.listed
    | failed => cases shape
    | full => cases shape
    | pushed child next list'' more read push =>
      have later := xmlParseChildren_advances advances passes list'' next
      rw [← shape] at later
      obtain ⟨listed, reals⟩ := keeps
        (fun a => outside a ∨ a ∈ ParsedNode.listAddresses list.nodes) parser child next read
        (fun event member => untouched event (later.trace.mem member)) live.listed
      apply ih shape.symm
      rw [XmlMarkup.xmlNodeChildPush_nodes push]
      constructor
      · intro a member
        rw [listAddresses_append, mem_append, ← or_assoc]
        exact listed a member
      · intro a member
        rw [listAddresses_append, mem_append, ← or_assoc]
        rw [listReals_append, mem_append] at member
        rcases member with old | new
        · exact .inl (live.reals a old)
        · exact reals a new

end Alive

theorem xmlParseNode_live (depth : Nat) : KeepsLive (xmlParseNode depth) := by
  induction depth with
  | zero => exact fun outside parser node next parsed => by cases parsed
  | succ depth ih =>
    intro outside parser node next parsed untouched known
    have real : ∀ tag a, (openNode parser tag).real = some a → outside a :=
      fun tag a resolved => known a (xmlNodeReal_listed resolved)
    have childless : Live outside parser.references [] :=
      ⟨fun a member => .inl (known a member), nofun⟩
    have step := xmlParseNode_step depth parser
    rw [parsed] at step
    generalize shape : ((.ok node, next) : Parsed ParsedNode) = result at step
    cases step with
    | unopened => cases shape
    | selfClosing tag rest =>
      cases shape
      exact node_live (fun a member => .inr (childless.listed a member)) childless.reals
        (real tag)
    | body tag rest =>
      have body := parseBody_step (xmlParseNode depth) (openNode parser tag)
        (enterNode parser tag rest)
      rw [← shape] at body
      generalize shape' : ((.ok node, next) : Parsed ParsedNode) = result at body
      cases body with
      | contentless => cases shape'
      | textual content rest' => exact closeNode_live shape'.symm childless (real tag)
      | overflow => cases shape'
      | childless => cases shape'
      | nested list unprefixed ended found within loop =>
        have closed := (closeNode_node shape'.symm).2
        obtain ⟨_, _, _, _, trace⟩ := closed
        have inside := xmlParseChildren_live (xmlParseNode_advances depth) ih loop
          (fun event member => untouched event (trace ▸ mem_cons_of_mem _ member)) childless
        exact closeNode_live shape'.symm inside (real tag)

/-- No reference of a document parsed from the buffer dangles, nor does one while
a parent carries on behind a child that was freed. -/
def ReferencesLive (buffer : Bytes) : Prop :=
  ∀ document, xmlDocumentParse buffer true = some document →
    (∀ a ∈ listed document.references, a ∈ document.root.addresses) ∧
      (∀ a ∈ document.root.reals, a ∈ document.root.addresses) ∧
      ∀ event ∈ (parseRoot buffer true).2.trace, Released event

/-- If the buffer is accepted, every child a parent carried on behind had left
the references as they were. -/
def DiscardsUnreferenced (buffer : Bytes) : Prop :=
  (xmlDocumentParse buffer true).isSome →
    ∀ event ∈ (parseRoot buffer true).2.trace, Untouched event

theorem parseRoot_dated (buffer : Bytes) :
    ∀ event ∈ (parseRoot buffer true).2.trace, Dated event := by
  have start : Recording 0 (some []) (initialParser buffer true) := ⟨nofun, nofun, .inl rfl⟩
  exact (xmlParseNode_records _ 0 (some []) _ (Nat.zero_le _) start).dated

theorem xml_references_live_iff (buffer : Bytes) :
    ReferencesLive buffer ↔ DiscardsUnreferenced buffer := by
  have dated := parseRoot_dated buffer
  constructor
  · intro live accepted event member
    obtain ⟨document, parsed⟩ := Option.isSome_iff_exists.mp accepted
    exact (dated event member).untouched_iff.mpr ((live document parsed).2.2 event member)
  · intro discards document parsed
    have untouched := discards (Option.isSome_iff_exists.mpr ⟨document, parsed⟩)
    obtain ⟨root, references, -⟩ := xmlDocumentParse_eq_some parsed
    obtain ⟨listed, reals⟩ := xmlParseNode_live _ (fun _ => False) _ _ _ root untouched nofun
    simp only [ParsedNode.listAddresses, ParsedNode.listReals, append_nil, false_or]
      at listed reals
    rw [references]
    exact ⟨listed, reals, fun event member =>
      (dated event member).untouched_iff.mp (untouched event member)⟩

def danglingText : Bytes :=
  Plist.ascii "<g><p><q><r ID=\"1\">x</r><//p><s IDREF=\"1\"/></g>"

/-- The element `r` is freed with `q`, and `s` still resolves to it. -/
theorem freed_element_referenced :
    ∃ document, xmlDocumentParse danglingText true = some document ∧
      3 ∈ listed document.references ∧ 3 ∈ document.root.reals ∧
      3 ∉ document.root.addresses := by
  have accepted : (xmlDocumentParse danglingText true).isSome := by
    rw [danglingText, Plist.ascii_ofList]
    decide +kernel
  have facts : ∀ document ∈ xmlDocumentParse danglingText true,
      3 ∈ listed document.references ∧ 3 ∈ document.root.reals ∧
        3 ∉ document.root.addresses := by
    rw [danglingText, Plist.ascii_ofList]
    decide +kernel
  obtain ⟨document, parsed⟩ := Option.isSome_iff_exists.mp accepted
  exact ⟨document, parsed, facts document parsed⟩

end OpenCore.XmlReferences
