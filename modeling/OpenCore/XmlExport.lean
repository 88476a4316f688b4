import OpenCore.XmlParse

/-!
`XmlDocumentExport`: nodes are printed into a pool buffer that is regrown when
the next piece would leave no byte for the terminator. A piece copied past the
end of the buffer would be lost, so that nothing is lost is a fact about the
growth rule, in the 32 bits its sizes have. Fresh pool memory reads as zero.
-/

namespace OpenCore.XmlExport

open Base ByteBuffer XmlText XmlParse List
open Plist (ascii)

def xmlExportMinAllocationSize : Nat := 4096

def xmlPlistHeader : Bytes := ascii (
  "<?xml version=\"1.0\" encoding=\"UTF-8\"?><!DOCTYPE plist PUBLIC " ++
  "\"-//Apple//DTD PLIST 1.0//EN\" \"http://www.apple.com/DTDs/PropertyList-1.0.dtd\">")

structure ExportBuffer where
  buffer : Bytes
  allocSize : Nat
  currentSize : Nat

def allocatePool (size : Nat) : Bytes := replicate size 0

def grownSize (allocSize dataLength : Nat) : Nat :=
  if (dataLength + 1) % u32 ≤ xmlExportMinAllocationSize then
    (allocSize + xmlExportMinAllocationSize) % u32
  else (allocSize + (dataLength + 1) % u32) % u32

def xmlBufferAppend (out : ExportBuffer) (data : Bytes) : ExportBuffer :=
  let dataLength := data.length % u32
  let room :=
    if wrapSub u32 out.allocSize out.currentSize ≤ dataLength then
      let newSize := grownSize out.allocSize dataLength
      { out with
        buffer := overlay (allocatePool newSize) 0 (out.buffer.take out.currentSize),
        allocSize := newSize }
    else out
  { room with
    buffer := overlay room.buffer room.currentSize (data.take dataLength),
    currentSize := (room.currentSize + dataLength) % u32 }

def appendAttributes (out : ExportBuffer) : Option Bytes → ExportBuffer
  | none => out
  | some attributes => xmlBufferAppend (xmlBufferAppend out (ascii " ")) attributes

mutual

def xmlNodeExportRecursive : Tree → Nat → ExportBuffer → ExportBuffer
  | .mk name attributes content children, skip, out =>
    if skip ≠ 0 then exportChildren children (skip - 1) out
    else
      let tag := appendAttributes (xmlBufferAppend (xmlBufferAppend out (ascii "<")) name) attributes
      if !children.isEmpty || content.isSome then
        let opened := xmlBufferAppend tag (ascii ">")
        let inner :=
          if !children.isEmpty then exportChildren children 0 opened
          else xmlBufferAppend opened (content.getD [])
        xmlBufferAppend (xmlBufferAppend (xmlBufferAppend inner (ascii "</")) name) (ascii ">")
      else xmlBufferAppend tag (ascii "/>")

def exportChildren : List Tree → Nat → ExportBuffer → ExportBuffer
  | [], _, out => out
  | child :: rest, skip, out => exportChildren rest skip (xmlNodeExportRecursive child skip out)

end

def xmlDocumentExport (document : XmlDocument) (skip : Nat) (prependPlistInfo : Bool) :
    Option (Bytes × Nat) :=
  let allocSize := (document.length + 1) % u32
  let out := xmlNodeExportRecursive document.root.tree skip ⟨allocatePool allocSize, allocSize, 0⟩
  if prependPlistInfo then
    (baseOverflowAdd u32 out.currentSize (xmlPlistHeader.length + 1)).map fun newSize =>
      let headed := overlay (allocatePool newSize) 0 xmlPlistHeader
      let whole := overlay headed xmlPlistHeader.length (out.buffer.take out.currentSize)
      (whole.set (newSize - 1) 0, newSize - 1)
  else some (out.buffer.set out.currentSize 0, out.currentSize)

mutual

def text : Tree → Bytes
  | .mk name attributes content children =>
    lt :: (name ++ ((attributes.map (32 :: ·)).getD [] ++
      if !children.isEmpty || content.isSome then
        gt :: ((if !children.isEmpty then listText children else content.getD []) ++
          lt :: slash :: (name ++ [gt]))
      else [slash, gt]))

def listText : List Tree → Bytes
  | [] => []
  | child :: rest => text child ++ listText rest

end

structure Holds (base : Nat) (out : ExportBuffer) (written : Bytes) : Prop where
  allocated : out.buffer.length = out.allocSize
  size : out.currentSize = written.length
  contents : out.buffer.take written.length = written
  room : written.length < out.allocSize
  bound : out.allocSize ≤ base + 2 * written.length + xmlExportMinAllocationSize

def Small (base size : Nat) : Prop := base + 2 * size + xmlExportMinAllocationSize < u32

theorem Small.le {base size size' : Nat} (small : Small base size') (fewer : size ≤ size') :
    Small base size := by
  unfold Small at *
  omega

theorem Small.base_fits {base size : Nat} (small : Small base size) : base % u32 = base := by
  unfold Small at small
  exact Nat.mod_eq_of_lt (by omega)

theorem empty_holds (length : Nat) :
    Holds (length + 1) ⟨allocatePool (length + 1), length + 1, 0⟩ [] :=
  ⟨length_replicate, rfl, rfl, Nat.succ_pos _, Nat.le_add_right (length + 1) _⟩

variable {out : ExportBuffer} {base : Nat}

theorem overlay_holds {written data : Bytes}
    (allocated : out.buffer.length = out.allocSize) (size : out.currentSize = written.length)
    (contents : out.buffer.take written.length = written)
    (room : written.length + data.length < out.allocSize)
    (bound : out.allocSize ≤ base + 2 * (written.length + data.length) + xmlExportMinAllocationSize)
    (small : written.length + data.length < u32) :
    Holds base { out with
      buffer := overlay out.buffer out.currentSize data,
      currentSize := (out.currentSize + data.length) % u32 } (written ++ data) where
  allocated := (overlay_length _ _ _).trans allocated
  size := by rw [size, Nat.mod_eq_of_lt small, length_append]
  contents := by
    have copied := @overlay_take out.buffer written.length data (by omega)
    rw [contents] at copied
    rw [size, length_append]
    exact copied
  room := by rw [length_append]; exact room
  bound := by rw [length_append]; exact bound

theorem grownSize_eq {allocSize dataLength : Nat}
    (small : allocSize + max xmlExportMinAllocationSize (dataLength + 1) < u32) :
    grownSize allocSize dataLength =
      allocSize + max xmlExportMinAllocationSize (dataLength + 1) := by
  rw [grownSize, Nat.mod_eq_of_lt (by omega)]
  split
  next fits => rw [Nat.mod_eq_of_lt (by omega), Nat.max_eq_left fits]
  next larger =>
    rw [Nat.mod_eq_of_lt (by omega), Nat.max_eq_right (le_of_lt (Nat.lt_of_not_le larger))]

variable {written : Bytes}

theorem xmlBufferAppend_holds (holds : Holds base out written) (data : Bytes)
    (small : Small base (written.length + data.length)) :
    Holds base (xmlBufferAppend out data) (written ++ data) := by
  obtain ⟨allocated, size, contents, room, bound⟩ := holds
  have min : xmlExportMinAllocationSize = 4096 := rfl
  unfold Small at small
  have dataLength : data.length % u32 = data.length := Nat.mod_eq_of_lt (by omega)
  have free : wrapSub u32 out.allocSize out.currentSize = out.allocSize - written.length := by
    rw [size]
    exact wrapSub_of_le (le_of_lt room) (by omega)
  simp only [xmlBufferAppend, dataLength, free, take_length]
  split
  next tight =>
    have grown := @grownSize_eq out.allocSize data.length (by omega)
    have kept : out.buffer.take out.currentSize = written := by rw [size, contents]
    have pool : (allocatePool (grownSize out.allocSize data.length)).length =
        grownSize out.allocSize data.length := length_replicate
    have copied := @overlay_take (allocatePool (grownSize out.allocSize data.length)) 0 written
      (by omega)
    rw [Nat.zero_add, take_zero, nil_append] at copied
    refine overlay_holds ((overlay_length _ _ _).trans pool) size ?_ ?_ ?_ (by omega)
    · rw [kept]
      exact copied
    · simp only
      omega
    · simp only
      omega
  next roomy =>
    exact overlay_holds allocated size contents (by omega) (by omega) (by omega)

theorem pieces : ascii "<" = [lt] ∧ ascii ">" = [gt] ∧ ascii "</" = [lt, slash] ∧
    ascii "/>" = [slash, gt] ∧ ascii " " = [32] := by decide

theorem appendAttributes_holds (holds : Holds base out written) (attributes : Option Bytes)
    (small : Small base (written.length + ((attributes.map (32 :: ·)).getD []).length)) :
    Holds base (appendAttributes out attributes)
      (written ++ (attributes.map (32 :: ·)).getD []) := by
  cases attributes with
  | none => simpa [appendAttributes] using holds
  | some attributes =>
    simp only [Option.map_some, Option.getD_some, length_cons] at small ⊢
    have spaced := xmlBufferAppend_holds holds (ascii " ") (small.le (by simp [pieces]))
    have whole := xmlBufferAppend_holds spaced attributes (small.le (by simp [pieces]; omega))
    simpa [appendAttributes, pieces] using whole

theorem closingTag_holds (holds : Holds base out written) (name : Bytes)
    (small : Small base (written.length + name.length + 3)) :
    Holds base (xmlBufferAppend (xmlBufferAppend (xmlBufferAppend out (ascii "</")) name) (ascii ">"))
      (written ++ lt :: slash :: (name ++ [gt])) := by
  have slashed := xmlBufferAppend_holds holds (ascii "</") (small.le (by simp [pieces]; omega))
  have named := xmlBufferAppend_holds slashed name (small.le (by simp [pieces]; omega))
  have ended := xmlBufferAppend_holds named (ascii ">") (small.le (by simp [pieces]; omega))
  simpa [pieces] using ended

mutual

-- Each piece is appended behind those before it: the recursion is the exporter's.
theorem xmlNodeExportRecursive_holds (tree : Tree) {base : Nat} {out : ExportBuffer}
    {written : Bytes} (holds : Holds base out written)
    (small : Small base (written.length + (text tree).length)) :
    Holds base (xmlNodeExportRecursive tree 0 out) (written ++ text tree) := by
  match tree with
  | .mk name attributes content children =>
    rw [text] at small ⊢
    simp only [length_cons, length_append] at small
    have start := xmlBufferAppend_holds holds (ascii "<") (small.le (by simp [pieces]))
    have named := xmlBufferAppend_holds start name (small.le (by simp [pieces]; omega))
    have tagged := appendAttributes_holds named attributes (small.le (by simp [pieces]; omega))
    rw [xmlNodeExportRecursive, if_neg (by simp)]
    match children, content with
    | child :: rest, content =>
      simp only [isEmpty_cons, Bool.not_false, Bool.true_or, if_true, length_cons,
        length_append, length_nil] at small ⊢
      have opened := xmlBufferAppend_holds tagged (ascii ">") (small.le
        (by simp only [pieces, length_append, length_cons, length_nil]; omega))
      have inner := exportChildren_holds (child :: rest) opened
        (small.le (by simp [pieces]; omega))
      have closed := closingTag_holds inner name (small.le (by simp [pieces]; omega))
      simpa [pieces] using closed
    | [], some content =>
      simp only [isEmpty_nil, Bool.not_true, Option.isSome_some, Bool.or_true, if_true,
        length_cons, length_append, length_nil, Option.getD_some,
        Bool.false_eq_true, if_false] at small ⊢
      have opened := xmlBufferAppend_holds tagged (ascii ">") (small.le
        (by simp only [pieces, length_append, length_cons, length_nil]; omega))
      have inner := xmlBufferAppend_holds opened content (small.le (by simp [pieces]; omega))
      have closed := closingTag_holds inner name (small.le (by simp [pieces]; omega))
      simpa [pieces] using closed
    | [], none =>
      simp only [isEmpty_nil, Bool.not_true, Option.isSome_none, Bool.or_false,
        Bool.false_eq_true, if_false, length_cons, length_nil] at small ⊢
      have ended := xmlBufferAppend_holds tagged (ascii "/>") (small.le (by simp [pieces]; omega))
      simpa [pieces] using ended

theorem exportChildren_holds (trees : List Tree) {base : Nat} {out : ExportBuffer}
    {written : Bytes} (holds : Holds base out written)
    (small : Small base (written.length + (listText trees).length)) :
    Holds base (exportChildren trees 0 out) (written ++ listText trees) := by
  match trees with
  | [] => simpa [exportChildren, listText] using holds
  | tree :: rest =>
    rw [listText, length_append] at small
    have first := xmlNodeExportRecursive_holds tree holds (small.le (by omega))
    have others := exportChildren_holds rest first
      (small.le (by rw [length_append]; omega))
    rw [exportChildren, listText, ← append_assoc]
    exact others

end

/-- What `PrependPlistInfo` puts in front of the text. -/
def plistInfo (prependPlistInfo : Bool) : Bytes := if prependPlistInfo then xmlPlistHeader else []

def printed (prependPlistInfo : Bool) (tree : Tree) : Bytes := plistInfo prependPlistInfo ++ text tree

theorem xmlDocumentExport_text {document : XmlDocument} (prependPlistInfo : Bool)
    (small : Small (document.length + 1) (printed prependPlistInfo document.root.tree).length) :
    ∃ exported, xmlDocumentExport document 0 prependPlistInfo =
        some (exported, (printed prependPlistInfo document.root.tree).length) ∧
      exported.take (printed prependPlistInfo document.root.tree).length =
        printed prependPlistInfo document.root.tree := by
  have shorter : (text document.root.tree).length ≤
      (printed prependPlistInfo document.root.tree).length := by
    rw [printed, length_append]
    exact Nat.le_add_left _ _
  have sized := small.base_fits
  have holds := xmlNodeExportRecursive_holds document.root.tree (empty_holds document.length)
    (small.le ((Nat.zero_add _).trans_le shorter))
  rw [nil_append] at holds
  cases prependPlistInfo with
  | false =>
    simp only [xmlDocumentExport, sized, holds.size, printed, plistInfo, Bool.false_eq_true,
      if_false, nil_append]
    refine ⟨_, rfl, ?_⟩
    rw [take_set_of_le (le_refl _)]
    exact holds.contents
  | true =>
    simp only [Small, printed, plistInfo, if_true, length_append] at small ⊢
    have added : baseOverflowAdd u32 (text document.root.tree).length
        (xmlPlistHeader.length + 1) =
          some ((text document.root.tree).length + (xmlPlistHeader.length + 1)) := if_pos (by omega)
    have size : (text document.root.tree).length + (xmlPlistHeader.length + 1) =
        xmlPlistHeader.length + (text document.root.tree).length + 1 := by omega
    simp only [xmlDocumentExport, sized, holds.size, holds.contents, added, size, if_true,
      Option.map_some, Nat.add_sub_cancel]
    refine ⟨_, rfl, ?_⟩
    have pool : (allocatePool (xmlPlistHeader.length + (text document.root.tree).length +
        1)).length = xmlPlistHeader.length + (text document.root.tree).length + 1 :=
      length_replicate
    have headed := @overlay_take (allocatePool (xmlPlistHeader.length +
      (text document.root.tree).length + 1)) 0 xmlPlistHeader (by omega)
    rw [Nat.zero_add, take_zero, nil_append] at headed
    rw [take_set_of_le (le_refl _), overlay_take (by rw [overlay_length]; omega), headed]

end OpenCore.XmlExport
