import OpenCore.XmlText

/-!
The lexical grammar of the documents the scanners accept: whitespace and control
sequences, the text of a tag, and the text between two tags. For each scanner,
what it returns is a word of the grammar, and on such a word it returns that.
-/

namespace OpenCore.XmlGrammar

open ByteBuffer XmlText List

section Span
variable {p : UInt8 → Bool} {l front back : Bytes}

def StopsAt (p : UInt8 → Bool) (back : Bytes) : Prop := ∀ c ∈ back.head?, p c = false

theorem stopsAt_dropWhile (p : UInt8 → Bool) (l : Bytes) : StopsAt p (l.dropWhile p) := by
  induction l with
  | nil => simp [StopsAt]
  | cons c rest ih =>
    by_cases holds : p c
    · rw [dropWhile_cons_of_pos holds]
      exact ih
    · rw [dropWhile_cons_of_neg holds]
      simpa [StopsAt] using holds

theorem dropWhile_of_stopsAt (stops : StopsAt p back) : back.dropWhile p = back := by
  cases back with
  | nil => rfl
  | cons c rest =>
    have refused : p c = false := stops c rfl
    exact dropWhile_cons_of_neg (by simp [refused])

theorem takeWhile_of_stopsAt (stops : StopsAt p back) : back.takeWhile p = [] := by
  cases back with
  | nil => rfl
  | cons c rest =>
    have refused : p c = false := stops c rfl
    exact takeWhile_cons_of_neg (by simp [refused])

theorem takeWhile_span (all : ∀ c ∈ front, p c) (stops : StopsAt p back) :
    (front ++ back).takeWhile p = front := by
  rw [takeWhile_append_of_pos all, takeWhile_of_stopsAt stops, append_nil]

theorem dropWhile_span (all : ∀ c ∈ front, p c) (stops : StopsAt p back) :
    (front ++ back).dropWhile p = back := by
  rw [dropWhile_append_of_pos all, dropWhile_of_stopsAt stops]

theorem takeWhile_all (p : UInt8 → Bool) (l : Bytes) : ∀ c ∈ l.takeWhile p, p c :=
  fun _ member => mem_takeWhile_imp member

end Span

@[simp] theorem peek_zero (c : UInt8) (rest : Bytes) : xmlParserPeek (c :: rest) 0 = c := rfl

@[simp] theorem peek_succ (c : UInt8) (rest : Bytes) (n : Nat) :
    xmlParserPeek (c :: rest) (n + 1) = xmlParserPeek rest n := rfl

variable {c : UInt8} {rest : Bytes}

theorem eq_cons_of_peek (peeked : xmlParserPeek rest 0 = c)
    (nonzero : c ≠ 0) : rest = c :: rest.drop 1 := by
  cases rest with
  | nil => exact absurd peeked.symm nonzero
  | cons first rest =>
    cases peeked
    rfl

theorem cString_of_nul_free {text : Bytes} (free : 0 ∉ text) : cString text = text := by
  apply takeWhile_eq_self_iff.mpr
  intro c member
  simp only [bne_iff_ne]
  exact fun zero => free (zero ▸ member)

def Spaces (word : Bytes) : Prop := ∀ c ∈ word, isAsciiSpace c

theorem skip_spaces {spaces back : Bytes} (all : Spaces spaces) :
    xmlSkipWhitespace (spaces ++ back) = xmlSkipWhitespace back :=
  dropWhile_append_of_pos all

theorem skip_of_stopsAt {back : Bytes} (stops : StopsAt isAsciiSpace back) :
    xmlSkipWhitespace back = back :=
  dropWhile_of_stopsAt stops

theorem skip_split (rest : Bytes) :
    ∃ spaces, Spaces spaces ∧ rest = spaces ++ xmlSkipWhitespace rest :=
  ⟨rest.takeWhile isAsciiSpace, takeWhile_all _ _, takeWhile_append_dropWhile.symm⟩

structure TagText where
  name : Bytes
  spaces : Bytes
  attributes : Bytes

namespace TagText

def bytes (text : TagText) : Bytes := text.name ++ (text.spaces ++ text.attributes)

def attributes? (text : TagText) : Option Bytes :=
  if text.spaces.isEmpty then none else some text.attributes

structure WellFormed (text : TagText) : Prop where
  name : ∀ c ∈ text.name, tagByte c ∧ isAsciiSpace c = false
  spaces : Spaces text.spaces
  attributes : ∀ c ∈ text.attributes, tagByte c
  separated : text.spaces = [] → text.attributes = []
  trimmed : StopsAt isAsciiSpace text.attributes
  named : text.name = [] → text.spaces = []

end TagText

theorem TagText.attributes?_cString (text : TagText) (free : 0 ∉ text.attributes) :
    text.attributes?.map cString = text.attributes? := by
  unfold TagText.attributes?
  split
  · rfl
  · rw [Option.map_some, cString_of_nul_free free]

theorem space_tagByte (space : isAsciiSpace c) : tagByte c := by
  simp only [isAsciiSpace, Bool.or_eq_true, beq_iff_eq] at space
  rcases space with ((((rfl | rfl) | rfl) | rfl) | rfl) | rfl <;> decide

variable {text : TagText}

theorem TagText.WellFormed.bytes_tagByte (formed : text.WellFormed) :
    ∀ c ∈ text.bytes, tagByte c := by
  intro c member
  rcases mem_append.mp member with inName | behind
  · exact (formed.name c inName).1
  rcases mem_append.mp behind with inSpaces | inAttributes
  · exact space_tagByte (formed.spaces c inSpaces)
  · exact formed.attributes c inAttributes

def tagText (body : Bytes) : TagText :=
  let trailing := body.dropWhile (!isAsciiSpace ·)
  ⟨body.takeWhile (!isAsciiSpace ·), trailing.takeWhile isAsciiSpace, xmlSkipWhitespace trailing⟩

theorem tagText_bytes (body : Bytes) : (tagText body).bytes = body := by
  simp only [TagText.bytes, tagText, xmlSkipWhitespace]
  rw [takeWhile_append_dropWhile, takeWhile_append_dropWhile]

theorem tagText_spaces (body : Bytes) :
    (tagText body).spaces.isEmpty = (body.dropWhile (!isAsciiSpace ·)).isEmpty := by
  have stops := stopsAt_dropWhile (!isAsciiSpace ·) body
  simp only [tagText]
  cases trailing : body.dropWhile (!isAsciiSpace ·) with
  | nil => rfl
  | cons c rest =>
    rw [trailing] at stops
    have space : isAsciiSpace c := by simpa using stops c rfl
    simp [takeWhile_cons_of_pos space]

variable {body : Bytes}

theorem tagText_wellFormed (bytes : ∀ c ∈ body, tagByte c)
    (named : (tagText body).name = [] → (tagText body).spaces = []) :
    (tagText body).WellFormed := by
  have inside : ∀ c ∈ (tagText body).bytes, tagByte c := by
    rw [tagText_bytes]
    exact bytes
  simp only [TagText.bytes, mem_append] at inside
  constructor
  · intro c member
    refine ⟨inside c (.inl member), ?_⟩
    simpa using takeWhile_all (!isAsciiSpace ·) body c member
  · exact takeWhile_all _ _
  · exact fun c member => inside c (.inr (.inr member))
  · intro none
    have empty := tagText_spaces body
    rw [none, isEmpty_nil, eq_comm, List.isEmpty_iff] at empty
    simp [tagText, xmlSkipWhitespace, empty]
  · exact stopsAt_dropWhile _ _
  · exact named

theorem tagText_of_bytes (formed : text.WellFormed) :
    tagText text.bytes = text := by
  have nameBytes : ∀ c ∈ text.name, !isAsciiSpace c := by
    intro c member
    simp [(formed.name c member).2]
  have behind : StopsAt (!isAsciiSpace ·) (text.spaces ++ text.attributes) := by
    cases shape : text.spaces with
    | nil =>
      rw [formed.separated shape]
      simp [StopsAt]
    | cons c rest =>
      have space : isAsciiSpace c := formed.spaces c (by simp [shape])
      simp [StopsAt, space]
  have trailing := dropWhile_span nameBytes behind
  simp only [tagText, TagText.bytes, trailing, takeWhile_span nameBytes behind, xmlSkipWhitespace,
    takeWhile_span formed.spaces formed.trimmed, dropWhile_span formed.spaces formed.trimmed]

def tagEnd (selfClosing : Bool) : Bytes := if selfClosing then [slash, gt] else [gt]

theorem gt_stops (rest : Bytes) : StopsAt tagByte (gt :: rest) := by simp [StopsAt, tagByte]

theorem slash_stops (rest : Bytes) : StopsAt tagByte (slash :: rest) := by simp [StopsAt, tagByte]

-- `XmlParseTagEnd` in terms of the text of the tag: the rest of the scanner
-- lemmas never look at the spans again.
theorem xmlParseTagEnd_eq (opening : Bool) (rest : Bytes) :
    xmlParseTagEnd opening rest = let text := tagText (rest.takeWhile tagByte)
      let after := rest.dropWhile tagByte
      let attributes := if opening then text.attributes?.map cString else none
      if text.name.isEmpty && !text.spaces.isEmpty then (.error .expectedTagName, rest)
      else if xmlParserPeek after 0 = slash then
        if !opening then (.error .unexpectedSelfClosing, after)
        else if xmlParserPeek after 1 ≠ gt then (.error .expectedTagEnd, after.drop 1)
        else (.ok ⟨cString text.name, attributes, true⟩, after.drop 2)
      else if xmlParserPeek after 0 ≠ gt then (.error .expectedTagEnd, after)
      else (.ok ⟨cString text.name, attributes, false⟩, after.drop 1) := by
  have attributes : (if (opening && !((rest.takeWhile tagByte).dropWhile (!isAsciiSpace ·)).isEmpty) = true
      then some (cString (xmlSkipWhitespace ((rest.takeWhile tagByte).dropWhile (!isAsciiSpace ·))))
      else none) =
      if opening then (tagText (rest.takeWhile tagByte)).attributes?.map cString else none := by
    simp only [TagText.attributes?, tagText_spaces]
    cases opening <;> cases ((rest.takeWhile tagByte).dropWhile (!isAsciiSpace ·)).isEmpty <;> rfl
  simp only [xmlParseTagEnd, attributes, tagText_spaces]
  rfl

variable {tag : Tag}

theorem xmlParseTagEnd_ok {opening : Bool} {rest after : Bytes} (free : 0 ∉ rest)
    (scanned : xmlParseTagEnd opening rest = (.ok tag, after)) :
    ∃ text : TagText, text.WellFormed ∧ rest = text.bytes ++ (tagEnd tag.selfClosing ++ after) ∧
      tag.name = text.name ∧ tag.attributes = (if opening then text.attributes? else none) ∧
      (opening = false → tag.selfClosing = false) := by
  have split : rest = (tagText (rest.takeWhile tagByte)).bytes ++ rest.dropWhile tagByte := by
    rw [tagText_bytes, takeWhile_append_dropWhile]
  have formed := tagText_wellFormed (takeWhile_all tagByte rest)
  rw [xmlParseTagEnd_eq] at scanned
  generalize tagText (rest.takeWhile tagByte) = text at split formed scanned
  generalize rest.dropWhile tagByte = behind at split scanned
  have unended : 0 ∉ text.bytes := fun member => free (split ▸ mem_append_left _ member)
  simp only [TagText.bytes, mem_append, not_or] at unended
  have name : cString text.name = text.name := cString_of_nul_free unended.1
  have attributes := text.attributes?_cString unended.2.2
  simp only [name, attributes] at scanned
  split at scanned
  · cases scanned
  next unnamed =>
  replace formed := formed (by simpa using unnamed)
  split at scanned
  next found =>
    split at scanned
    · cases scanned
    next opens =>
    split at scanned
    · cases scanned
    next ended =>
    have first := eq_cons_of_peek found (by decide)
    have second : xmlParserPeek (behind.drop 1) 0 = gt := by
      rw [first, peek_succ] at ended
      exact not_not.mp ended
    rw [eq_cons_of_peek second (by decide), drop_drop] at first
    cases scanned
    exact ⟨text, formed, by rw [split, first]; rfl, rfl, rfl, fun closing => by simp [closing] at opens⟩
  next =>
    split at scanned
    · cases scanned
    next ended =>
    have first := eq_cons_of_peek (not_not.mp ended) (by decide)
    cases scanned
    exact ⟨text, formed, by rw [split, first]; rfl, rfl, rfl, fun _ => rfl⟩

theorem xmlParseTagEnd_of_text (formed : text.WellFormed) (free : 0 ∉ text.bytes)
    {opening selfClosing : Bool} (allowed : opening = false → selfClosing = false)
    (after : Bytes) :
    xmlParseTagEnd opening (text.bytes ++ (tagEnd selfClosing ++ after)) =
      (.ok ⟨text.name, if opening then text.attributes? else none, selfClosing⟩, after) := by
  have stops : StopsAt tagByte (tagEnd selfClosing ++ after) := by
    cases selfClosing
    · exact gt_stops after
    · exact slash_stops _
  have unnamed : (text.name.isEmpty && !text.spaces.isEmpty) = false := by
    cases shape : text.name with
    | nil => simp [formed.named shape]
    | cons c rest => rfl
  simp only [TagText.bytes, mem_append, not_or] at free
  have attributes := text.attributes?_cString free.2.2
  rw [xmlParseTagEnd_eq, takeWhile_span formed.bytes_tagByte stops,
    dropWhile_span formed.bytes_tagByte stops, tagText_of_bytes formed]
  simp only [unnamed, attributes, cString_of_nul_free free.1]
  cases selfClosing
  · rfl
  · cases opening
    · cases allowed rfl
    · rfl

inductive Controls : Bytes → Prop where
  | nil : Controls []
  | space {c : UInt8} {rest : Bytes} : isAsciiSpace c → Controls rest → Controls (c :: rest)
  | instruction {body rest : Bytes} : gt ∉ body → Controls rest →
      Controls (lt :: question :: (body ++ gt :: rest))
  | declaration {body rest : Bytes} : gt ∉ body → ¬ [dash, dash] <+: body → Controls rest →
      Controls (lt :: exclamation :: (body ++ gt :: rest))
  | comment {body rest : Bytes} : ¬ [dash, dash, gt] <:+: body → Controls rest →
      Controls (lt :: exclamation :: dash :: dash :: (body ++ dash :: dash :: gt :: rest))

theorem Spaces.controls {spaces rest : Bytes} (all : Spaces spaces) (behind : Controls rest) :
    Controls (spaces ++ rest) := by
  induction spaces with
  | nil => exact behind
  | cons c spaces ih =>
    exact .space (all c mem_cons_self) (ih fun c member => all c (mem_cons_of_mem _ member))

theorem skipControl_split (ended : skipControl rest ≠ []) :
    ∃ body, gt ∉ body ∧ rest = body ++ gt :: skipControl rest := by
  induction rest with
  | nil => exact absurd rfl ended
  | cons c rest ih =>
    simp only [skipControl] at ended ⊢
    split at ended
    next found => exact ⟨[], by simp, by rw [if_pos found, found, nil_append]⟩
    next other =>
      obtain ⟨body, inside, same⟩ := ih ended
      rw [if_neg other]
      refine ⟨c :: body, ?_, congrArg (c :: ·) same⟩
      simpa [inside] using Ne.symm other

theorem skipControl_body (inside : gt ∉ body) (rest : Bytes) :
    skipControl (body ++ gt :: rest) = rest := by
  induction body with
  | nil => rfl
  | cons c body ih =>
    simp only [mem_cons, not_or] at inside
    rw [cons_append, skipControl, if_neg (Ne.symm inside.1), ih inside.2]

theorem skipComment_split (ended : skipComment rest ≠ []) :
    ∃ body, ¬ [dash, dash, gt] <:+: body ∧ rest = body ++ dash :: dash :: gt :: skipComment rest := by
  induction rest with
  | nil => exact absurd rfl ended
  | cons c rest ih =>
    simp only [skipComment] at ended ⊢
    split at ended
    next found =>
      obtain ⟨first, second, third⟩ := found
      have tail := eq_cons_of_peek second (by decide)
      have last : xmlParserPeek (rest.drop 1) 0 = gt := by
        rw [tail, peek_succ] at third
        exact third
      rw [eq_cons_of_peek last (by decide), drop_drop] at tail
      refine ⟨[], by simp, ?_⟩
      rw [if_pos ⟨first, second, third⟩, first, nil_append, ← tail]
    next other =>
      obtain ⟨body, inside, same⟩ := ih ended
      rw [if_neg other]
      refine ⟨c :: body, ?_, congrArg (c :: ·) same⟩
      rw [infix_cons_iff, not_or]
      refine ⟨?_, inside⟩
      rintro ⟨tail, front⟩
      injection front with first front
      apply other
      rw [same, ← front]
      exact ⟨first.symm, rfl, rfl⟩

theorem skipComment_body (inside : ¬ [dash, dash, gt] <:+: body) (rest : Bytes) :
    skipComment (body ++ dash :: dash :: gt :: rest) = rest := by
  induction body with
  | nil => rfl
  | cons c body ih =>
    rw [infix_cons_iff, not_or] at inside
    rw [cons_append, skipComment, if_neg, ih inside.2]
    rintro ⟨rfl, second, third⟩
    -- The marker cannot straddle the end of the body, whose next byte is a dash.
    apply inside.1
    match body with
    | [] => cases third
    | [second'] => cases third
    | second' :: third' :: body =>
      cases second
      cases third
      exact ⟨body, rfl⟩

theorem skipSequence_split (kind : c = question ∨ c = exclamation)
    (ended : skipSequence (c :: rest) ≠ []) :
    ∃ front, lt :: c :: rest = front ++ skipSequence (c :: rest) ∧ front ≠ [] ∧
      ∀ later, Controls later → Controls (front ++ later) := by
  rcases kind with rfl | rfl
  · have skipped : skipSequence (question :: rest) = skipControl rest := rfl
    rw [skipped] at ended ⊢
    obtain ⟨body, inside, same⟩ := skipControl_split ended
    refine ⟨lt :: question :: (body ++ [gt]), by simp [← same], by simp, ?_⟩
    intro later behind
    simpa using Controls.instruction inside behind
  · by_cases comment : xmlParserPeek rest 0 = dash ∧ xmlParserPeek rest 1 = dash
    · have skipped : skipSequence (exclamation :: rest) = skipComment (rest.drop 2) := by
        simp [skipSequence, comment]
      rw [skipped] at ended ⊢
      have first := eq_cons_of_peek comment.1 (by decide)
      have next : xmlParserPeek (rest.drop 1) 0 = dash := by
        have second := comment.2
        rw [first, peek_succ] at second
        exact second
      rw [eq_cons_of_peek next (by decide), drop_drop] at first
      obtain ⟨body, inside, same⟩ := skipComment_split ended
      refine ⟨lt :: exclamation :: dash :: dash :: (body ++ [dash, dash, gt]), ?_, by simp, ?_⟩
      · simp [← same, ← first]
      · intro later behind
        simpa using Controls.comment inside behind
    · have skipped : skipSequence (exclamation :: rest) = skipControl rest := by
        simp [skipSequence, comment]
      rw [skipped] at ended ⊢
      obtain ⟨body, inside, same⟩ := skipControl_split ended
      have plain : ¬ [dash, dash] <+: body := by
        rintro ⟨tail, front⟩
        apply comment
        rw [same, ← front]
        exact ⟨rfl, rfl⟩
      refine ⟨lt :: exclamation :: (body ++ [gt]), by simp [← same], by simp, ?_⟩
      intro later behind
      simpa using Controls.declaration inside plain behind

theorem skipSequence_instruction (inside : gt ∉ body) (rest : Bytes) :
    skipSequence (question :: (body ++ gt :: rest)) = rest :=
  skipControl_body inside rest

theorem skipSequence_declaration (inside : gt ∉ body)
    (undashed : ¬ [dash, dash] <+: body) (rest : Bytes) :
    skipSequence (exclamation :: (body ++ gt :: rest)) = rest := by
  have plain : ¬ (xmlParserPeek (body ++ gt :: rest) 0 = dash ∧
      xmlParserPeek (body ++ gt :: rest) 1 = dash) := by
    rintro ⟨first, second⟩
    match body with
    | [] => cases first
    | [c] => cases second
    | c :: d :: body =>
      cases first
      cases second
      exact undashed ⟨body, rfl⟩
  simp only [skipSequence, peek_zero, peek_succ, if_true, if_neg plain, drop_succ_cons, drop_zero]
  exact skipControl_body inside rest

theorem skipSequence_comment (inside : ¬ [dash, dash, gt] <:+: body) (rest : Bytes) :
    skipSequence (exclamation :: dash :: dash :: (body ++ dash :: dash :: gt :: rest)) = rest :=
  skipComment_body inside rest

def Opens (inner : Bytes) : Prop :=
  xmlParserPeek inner 0 ≠ slash ∧ xmlParserPeek inner 0 ≠ question ∧
    xmlParserPeek inner 0 ≠ exclamation

inductive TagOpenStep (passes : Nat) (rest : Bytes) : Scanned Tag → Prop where
  | refused (after : Bytes) : after <:+ rest →
      TagOpenStep passes rest (.error .expectedOpeningTag, after)
  | childEnd (spaces inner : Bytes) : Spaces spaces → rest = spaces ++ lt :: inner →
      xmlParserPeek inner 0 = slash → TagOpenStep passes rest (.error .childEnd, inner)
  | opened (spaces inner : Bytes) : Spaces spaces → rest = spaces ++ lt :: inner → Opens inner →
      TagOpenStep passes rest (xmlParseTagEnd true inner)
  | ended : TagOpenStep passes rest (.error .expectedTagEnd, [])
  | skipped (front next : Bytes) : next ≠ [] → rest = front ++ next → front ≠ [] →
      (∀ later, Controls later → Controls (front ++ later)) →
      TagOpenStep passes rest (tagOpenLoop passes next)

theorem tagOpenLoop_step (passes : Nat) (rest : Bytes) :
    TagOpenStep passes rest (tagOpenLoop (passes + 1) rest) := by
  obtain ⟨spaces, all, split⟩ := skip_split rest
  rw [tagOpenLoop]
  generalize xmlSkipWhitespace rest = start at split ⊢
  simp only
  split
  next => exact .refused start ⟨spaces, split.symm⟩
  next found =>
    have first := eq_cons_of_peek (not_not.mp found) (by decide)
    rw [first] at split
    generalize start.drop 1 = inner at split ⊢
    split
    next closing => exact .childEnd spaces inner all split closing
    next opening =>
      split
      next plain => exact .opened spaces inner all split ⟨opening, plain⟩
      next control =>
        have kind : xmlParserPeek inner 0 = question ∨ xmlParserPeek inner 0 = exclamation := by
          tauto
        have nonzero : xmlParserPeek inner 0 ≠ 0 := by
          rcases kind with same | same <;> rw [same] <;> decide
        have shape := eq_cons_of_peek rfl nonzero
        split
        next ended =>
          rw [List.isEmpty_iff.mp ended]
          exact .ended
        next more =>
          have unended : skipSequence inner ≠ [] := by simpa using more
          rw [shape] at unended split ⊢
          obtain ⟨front, same, nonempty, controls⟩ := skipSequence_split kind unended
          rw [same, ← append_assoc] at split
          refine .skipped (spaces ++ front) _ unended split (by simp [nonempty]) ?_
          intro later behind
          rw [append_assoc]
          exact all.controls (controls later behind)

/-- What `XmlParseTagOpen` can return: control sequences, and then a closing tag
or the rest of an opening tag. -/
inductive TagOpenResult (rest : Bytes) : Scanned Tag → Prop where
  | failed (failure : XmlFailure) (after : Bytes) : failure ≠ .childEnd → after <:+ rest →
      TagOpenResult rest (.error failure, after)
  | childEnd (lead inner : Bytes) : Controls lead → rest = lead ++ lt :: inner →
      xmlParserPeek inner 0 = slash → TagOpenResult rest (.error .childEnd, inner)
  | opened (lead inner : Bytes) : Controls lead → rest = lead ++ lt :: inner → Opens inner →
      TagOpenResult rest (xmlParseTagEnd true inner)

theorem tagOpenLoop_result (passes : Nat) (rest : Bytes) :
    TagOpenResult rest (tagOpenLoop passes rest) := by
  induction passes generalizing rest with
  | zero => exact .failed _ _ nofun suffix_rfl
  | succ passes ih =>
    have step := tagOpenLoop_step passes rest
    generalize tagOpenLoop (passes + 1) rest = result at step
    cases step with
    | refused after behind => exact .failed _ _ nofun behind
    | childEnd spaces inner all split closing =>
      refine .childEnd spaces inner ?_ split closing
      simpa using all.controls .nil
    | opened spaces inner all split opens =>
      refine .opened spaces inner ?_ split opens
      simpa using all.controls .nil
    | ended => exact .failed _ _ nofun (nil_suffix)
    | skipped front next more split nonempty controls =>
      have later := ih next
      generalize tagOpenLoop passes next = result at later
      cases later with
      | failed failure after other behind =>
        exact .failed failure after other (split ▸ behind.trans (suffix_append front next))
      | childEnd lead inner behind same closing =>
        refine .childEnd (front ++ lead) inner (controls lead behind) ?_ closing
        rw [split, same, append_assoc]
      | opened lead inner behind same opens =>
        refine .opened (front ++ lead) inner (controls lead behind) ?_ opens
        rw [split, same, append_assoc]

theorem xmlParseTagEnd_suffix (opening : Bool) (rest : Bytes) :
    (xmlParseTagEnd opening rest).2 <:+ rest := by
  have after : rest.dropWhile tagByte <:+ rest := dropWhile_suffix _
  simp only [xmlParseTagEnd]
  split
  · exact suffix_rfl
  split
  · split
    · exact after
    split
    · exact (drop_suffix _ _).trans after
    · exact (drop_suffix _ _).trans after
  split
  · exact after
  · exact (drop_suffix _ _).trans after

theorem xmlParseTagClose_suffix (unprefixed : Bool) (rest : Bytes) :
    (xmlParseTagClose unprefixed rest).2 <:+ rest := by
  have start : xmlSkipWhitespace rest <:+ rest := dropWhile_suffix _
  have ends : ∀ n, (xmlParseTagEnd false ((xmlSkipWhitespace rest).drop n)).2 <:+ rest :=
    fun n => (xmlParseTagEnd_suffix false _).trans ((drop_suffix n _).trans start)
  simp only [xmlParseTagClose]
  split
  · split
    · exact start
    · exact ends 1
  split
  · exact start
  split
  · exact start
  · exact ends 2

theorem xmlParseContent_suffix (rest : Bytes) : (xmlParseContent rest).2 <:+ rest := by
  have after : (xmlSkipWhitespace rest).dropWhile (· != lt) <:+ rest :=
    (dropWhile_suffix _).trans (dropWhile_suffix _)
  simp only [xmlParseContent]
  split
  · exact after
  · exact (drop_suffix _ _).trans after

theorem xmlParseTagOpen_result (rest : Bytes) : TagOpenResult rest (xmlParseTagOpen rest) :=
  tagOpenLoop_result (rest.length + 1) rest

theorem xmlParseTagOpen_suffix (rest : Bytes) : (xmlParseTagOpen rest).2 <:+ rest := by
  have result := xmlParseTagOpen_result rest
  generalize xmlParseTagOpen rest = scanned at result
  cases result with
  | failed failure after other behind => exact behind
  | childEnd lead inner controls same closing => exact ⟨lead ++ [lt], by simp [same]⟩
  | opened lead inner controls same opens =>
    exact (xmlParseTagEnd_suffix true inner).trans ⟨lead ++ [lt], by simp [same]⟩

theorem xmlParseTagOpen_shorter {rest after : Bytes}
    (scanned : xmlParseTagOpen rest = (.ok tag, after)) : after.length < rest.length := by
  have result := xmlParseTagOpen_result rest
  rw [scanned] at result
  generalize shape : ((.ok tag, after) : Scanned Tag) = scanned' at result
  cases result with
  | failed failure after' other behind => cases shape
  | childEnd lead inner controls same closing => cases shape
  | opened lead inner controls same opens =>
    have behind := (xmlParseTagEnd_suffix true inner).length_le
    rw [← shape] at behind
    rw [same, length_append, length_cons]
    exact Nat.lt_add_left lead.length (Nat.lt_succ_of_le behind)

def tagOpenAt (inner : Bytes) : Scanned Tag :=
  if xmlParserPeek inner 0 = slash then (.error .childEnd, inner) else xmlParseTagEnd true inner

theorem tagOpenLoop_space (passes : Nat) (space : isAsciiSpace c) (rest : Bytes) :
    tagOpenLoop passes (c :: rest) = tagOpenLoop passes rest ∨ passes = 0 := by
  cases passes with
  | zero => exact .inr rfl
  | succ passes =>
    left
    have skipped : xmlSkipWhitespace (c :: rest) = xmlSkipWhitespace rest :=
      dropWhile_cons_of_pos space
    rw [tagOpenLoop, tagOpenLoop, skipped]

theorem lt_stops (rest : Bytes) : StopsAt isAsciiSpace (lt :: rest) := by
  simp only [StopsAt, head?_cons, Option.mem_some_iff, forall_eq']
  rfl

theorem tagOpenLoop_sequence {passes : Nat} {rest next : Bytes}
    (kind : c = question ∨ c = exclamation) (skipped : skipSequence (c :: rest) = next)
    (more : next ≠ []) :
    tagOpenLoop (passes + 1) (lt :: c :: rest) = tagOpenLoop passes next := by
  have control : ¬ (c ≠ question ∧ c ≠ exclamation) := by tauto
  have other : c ≠ slash := by
    rcases kind with rfl | rfl <;> decide
  rw [tagOpenLoop, skip_of_stopsAt (lt_stops _)]
  simp [other, control, skipped, more]

section

variable {lead : Bytes} (controls : Controls lead) (inner : Bytes)
  (plain : xmlParserPeek inner 0 ≠ question ∧ xmlParserPeek inner 0 ≠ exclamation)
include controls inner plain

theorem tagOpenLoop_of_controls {passes : Nat} (enough : lead.length < passes) :
    tagOpenLoop passes (lead ++ lt :: inner) = tagOpenAt inner := by
  induction controls generalizing passes with
  | nil =>
    obtain ⟨passes, rfl⟩ := Nat.exists_eq_succ_of_ne_zero (ne_of_gt enough)
    rw [nil_append, tagOpenLoop, skip_of_stopsAt (lt_stops _)]
    simp [tagOpenAt, plain]
  | @space c rest space behind ih =>
    rw [length_cons] at enough
    rw [cons_append]
    rcases tagOpenLoop_space passes space (rest ++ lt :: inner) with same | none
    · rw [same]
      exact ih (by omega)
    · omega
  | @instruction body rest inside behind ih =>
    cases passes with
    | zero => cases enough
    | succ passes =>
      simp only [length_cons, length_append] at enough
      have skipped := skipSequence_instruction inside (rest ++ lt :: inner)
      simp only [cons_append, append_assoc]
      rw [tagOpenLoop_sequence (.inl rfl) skipped (by simp)]
      exact ih (by omega)
  | @declaration body rest inside undashed behind ih =>
    cases passes with
    | zero => cases enough
    | succ passes =>
      simp only [length_cons, length_append] at enough
      have skipped := skipSequence_declaration inside undashed (rest ++ lt :: inner)
      simp only [cons_append, append_assoc]
      rw [tagOpenLoop_sequence (.inr rfl) skipped (by simp)]
      exact ih (by omega)
  | @comment body rest inside behind ih =>
    cases passes with
    | zero => cases enough
    | succ passes =>
      simp only [length_cons, length_append] at enough
      have skipped := skipSequence_comment inside (rest ++ lt :: inner)
      simp only [cons_append, append_assoc]
      rw [tagOpenLoop_sequence (.inr rfl) skipped (by simp)]
      exact ih (by omega)

theorem xmlParseTagOpen_of_controls :
    xmlParseTagOpen (lead ++ lt :: inner) = tagOpenAt inner := by
  apply tagOpenLoop_of_controls controls inner plain
  simp only [length_append]
  omega

end

theorem xmlParseTagClose_prefixed {word rest : Bytes} :
    xmlParseTagClose false (lt :: slash :: word ++ rest) = xmlParseTagEnd false (word ++ rest) := by
  simp only [xmlParseTagClose, cons_append]
  rw [skip_of_stopsAt (lt_stops _)]
  rfl

theorem xmlParseTagClose_unprefixed {word rest : Bytes} :
    xmlParseTagClose true (slash :: word ++ rest) = xmlParseTagEnd false (word ++ rest) := by
  have stops : StopsAt isAsciiSpace (slash :: word ++ rest) := by
    simp only [StopsAt, cons_append, head?_cons, Option.mem_some_iff, forall_eq']
    rfl
  simp only [xmlParseTagClose]
  rw [skip_of_stopsAt stops]
  rfl

/-- What a closing tag is preceded by when its `<` is already consumed, or not. -/
def closingPrefix (unprefixed : Bool) : Bytes := if unprefixed then [slash] else [lt, slash]

structure Content (text : Bytes) : Prop where
  nonempty : text ≠ []
  plain : lt ∉ text
  front : StopsAt isAsciiSpace text
  back : text.rdropWhile isAsciiSpace = text

theorem xmlParseContent_ok {rest after content : Bytes} (free : 0 ∉ rest)
    (stops : StopsAt isAsciiSpace rest) (textual : xmlParserPeek rest 0 ≠ lt)
    (scanned : xmlParseContent rest = (.ok content, after)) :
    ∃ spaces, Content content ∧ Spaces spaces ∧ rest = content ++ (spaces ++ lt :: after) := by
  rw [xmlParseContent] at scanned
  simp only [skip_of_stopsAt stops] at scanned
  have split : rest = rest.takeWhile (· != lt) ++ rest.dropWhile (· != lt) :=
    takeWhile_append_dropWhile.symm
  have plain := takeWhile_all (· != lt) rest
  generalize rest.takeWhile (· != lt) = text at split plain scanned
  generalize rest.dropWhile (· != lt) = behind at split scanned
  split at scanned
  · cases scanned
  next found =>
    have first := eq_cons_of_peek (not_not.mp found) (by decide)
    have cut : text.rdropWhile isAsciiSpace ++ text.rtakeWhile isAsciiSpace = text :=
      rdropWhile_append_rtakeWhile
    have unended : 0 ∉ text.rdropWhile isAsciiSpace := by
      intro member
      apply free
      rw [split, ← cut]
      exact mem_append_left _ (mem_append_left _ member)
    rw [cString_of_nul_free unended] at scanned
    obtain ⟨rfl, rfl⟩ : text.rdropWhile isAsciiSpace = content ∧ behind.drop 1 = after := by
      cases scanned
      exact ⟨rfl, rfl⟩
    have nonempty : text ≠ [] := by
      rintro rfl
      rw [split, first] at textual
      exact textual rfl
    obtain ⟨c, more, shape⟩ := exists_cons_of_ne_nil nonempty
    have unspaced : isAsciiSpace c = false := by
      apply stops c
      rw [split, shape]
      rfl
    have kept : text.rdropWhile isAsciiSpace ≠ [] := by
      intro gone
      have spaced := rdropWhile_eq_nil_iff.mp gone c (by rw [shape]; exact mem_cons_self)
      rw [unspaced] at spaced
      cases spaced
    refine ⟨text.rtakeWhile isAsciiSpace, ⟨kept, ?_, ?_, ?_⟩, ?_, ?_⟩
    · intro member
      have other := plain lt (( rdropWhile_prefix _ _).mem member)
      simp at other
    · intro d head
      apply stops d
      obtain ⟨more, shape⟩ : ∃ more, text.rdropWhile isAsciiSpace = d :: more :=
        head?_eq_some_iff.mp head
      rw [split, ← cut, shape]
      rfl
    · exact rdropWhile_idempotent _ _
    · exact fun c member => mem_rtakeWhile_imp member
    · rw [← append_assoc, cut, ← first]
      exact split

theorem xmlParseContent_of_text {text spaces : Bytes} (content : Content text)
    (free : 0 ∉ text) (all : Spaces spaces) (after : Bytes) :
    xmlParseContent (text ++ (spaces ++ lt :: after)) = (.ok text, after) := by
  have spaced : ∀ c ∈ text ++ spaces, c != lt := by
    intro c member
    rw [bne_iff_ne]
    rintro rfl
    rcases mem_append.mp member with inside | inside
    · exact content.plain inside
    · exact absurd (all lt inside) (by decide)
  have stops : StopsAt isAsciiSpace (text ++ (spaces ++ lt :: after)) := by
    obtain ⟨c, more, shape⟩ := exists_cons_of_ne_nil content.nonempty
    have front := content.front
    rw [shape] at front ⊢
    exact front
  have ends : StopsAt (· != lt) (lt :: after) := by simp [StopsAt]
  have cut : (text ++ spaces).rdropWhile isAsciiSpace = text := by
    rw [List.rdropWhile, reverse_append,
      dropWhile_append_of_pos (fun c member => all c (mem_reverse.mp member))]
    exact content.back
  rw [xmlParseContent, skip_of_stopsAt stops, ← append_assoc]
  simp only [takeWhile_span spaced ends, dropWhile_span spaced ends, cut, cString_of_nul_free free]
  rfl

end OpenCore.XmlGrammar
