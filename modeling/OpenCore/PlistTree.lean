import OpenCore.XmlExport

/-!
Property lists over the trees of a parsed document, as `OcAppleKernelLib` uses
them: a dictionary is searched for a key, and the value node found may be given
other content. The document is printed again from the tree.
-/

namespace OpenCore.XmlParse.Tree

open ByteBuffer Plist

mutual

/-- The node the functions of `OcXmlLib.c` read; without references it has no
`Real` node. -/
def plistNode : Tree → XmlNode
  | .mk name attributes content children =>
    .mk ⟨name, .temporary⟩ (attributes.map (⟨·, .temporary⟩)) (content.map (⟨·, .temporary⟩)) none
      (plistNodes children)

def plistNodes : List Tree → List XmlNode
  | [] => []
  | tree :: rest => plistNode tree :: plistNodes rest

end

mutual

def parsed : Tree → ParsedNode
  | .mk name attributes content children => .mk 0 name attributes content none (listParsed children)

def listParsed : List Tree → List ParsedNode
  | [] => []
  | tree :: rest => parsed tree :: listParsed rest

end

def name : Tree → Bytes
  | .mk name _ _ _ => name

def content : Tree → Option Bytes
  | .mk _ _ content _ => content

def children : Tree → List Tree
  | .mk _ _ _ children => children

def withChildren : Tree → List Tree → Tree
  | .mk name attributes content _, children => .mk name attributes content children

end OpenCore.XmlParse.Tree

namespace OpenCore.PlistTree

open Base ByteBuffer XmlParse XmlExport Plist

def xmlNodeChangeContent : Tree → Bytes → Tree
  | .mk name attributes _ children, content => .mk name attributes (some content) children

def isDict (tree : Tree) : Bool := (plistNodeCast tree.plistNode .dict).isSome

def keyValue (tree : Tree) : Option Bytes := (plistKeyValue tree.plistNode).map Text.value

def integerValue (tree : Tree) (modulus : Nat) : Option Nat :=
  plistIntegerValue tree.plistNode modulus true

/-- The first entry of a dictionary with a key: the nodes up to the key, the value,
the nodes behind it. -/
def findEntry (key : Bytes) : List Tree → Option (List Tree × Tree × List Tree)
  | name :: value :: rest =>
    if keyValue name = some key then some ([name], value, rest)
    else (findEntry key rest).map fun found => (name :: value :: found.1, found.2)
  | _ => none

def dictEntries : List Tree → List (Tree × Tree)
  | name :: value :: rest => (name, value) :: dictEntries rest
  | _ => []

def isString (tree : Tree) : Bool := (plistNodeCast tree.plistNode .string).isSome

def documentDict (root : Tree) : Option Tree :=
  if Tree.name root = ascii "plist" then
    match Tree.children root with
    | [dict] => if isDict dict then some dict else none
    | _ => none
  else none

def exportTree (length : Nat) (tree : Tree) (skip : Nat) : Option (Bytes × Nat) :=
  xmlDocumentExport ⟨length, Tree.parsed tree, none⟩ skip false

mutual

theorem parsed_tree (tree : Tree) : (Tree.parsed tree).tree = tree := by
  match tree with
  | .mk name attributes content children =>
    rw [Tree.parsed, ParsedNode.tree, listParsed_trees children]

theorem listParsed_trees (trees : List Tree) : ParsedNode.trees (Tree.listParsed trees) = trees := by
  match trees with
  | [] => rfl
  | tree :: rest => rw [Tree.listParsed, ParsedNode.trees, parsed_tree tree, listParsed_trees rest]

end

theorem exportTree_inside {length : Nat} {name attributes content name' attributes' content'}
    {children : List Tree} (small : Small (length + 1) (listText children).length) :
    ∃ buffer, exportTree length
        (.mk name attributes content [.mk name' attributes' content' children]) 2 =
          some (buffer, (listText children).length) ∧
      buffer.take (listText children).length = listText children ∧
      buffer[(listText children).length]? = some 0 := by
  have sized := small.base_fits
  have holds := exportChildren_holds children (empty_holds length) (small.le (by simp))
  rw [List.nil_append] at holds
  simp only [exportTree, xmlDocumentExport, sized, parsed_tree, xmlNodeExportRecursive,
    exportChildren, ne_eq, OfNat.ofNat_ne_zero, not_false_eq_true, if_true, Nat.reduceSub,
    one_ne_zero, holds.size, Bool.false_eq_true, if_false]
  refine ⟨_, rfl, ?_, ?_⟩
  · rw [List.take_set_of_le (le_refl _)]
    exact holds.contents
  · apply List.getElem?_set_self
    rw [holds.allocated]
    exact holds.room

end OpenCore.PlistTree
