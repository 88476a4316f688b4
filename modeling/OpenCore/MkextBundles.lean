import OpenCore.MkextPlacement
import OpenCore.XmlRoundTrip
import OpenCore.HexText

/-!
The bundles of a version 2 mkext: the keys an injected kext gets, what they state
of it, and the text its plist becomes.
-/

namespace OpenCore.MkextBundles

open Base ByteBuffer BigEndian ByteSlices XmlParse XmlExport XmlRoundTrip XmlStrings PlistTree
  HexText MkextFormat MkextState MkextInject MkextDecompress MkextPlacement
open Plist (ascii)

/-- The keys and values of a bundle; those of an injected kext are kept as text. -/
def Shows (bundle : Tree) (children : List Tree) : Prop :=
  children = Tree.children bundle ∨
    Tree.children bundle = [] ∧ Tree.content bundle = some (listText children)

def statedFields (children : List Tree) : Option (Option Bytes × Nat) :=
  bundleFields (fun _ => true) (dictEntries children) (none, 0)

theorem dictEntries_append {front : List Tree} (even : front.length % 2 = 0) (back : List Tree) :
    dictEntries (front ++ back) = dictEntries front ++ dictEntries back := by
  induction front using dictEntries.induct with
  | case1 name value rest ih =>
    simp only [List.length_cons] at even
    rw [List.cons_append, List.cons_append, dictEntries, dictEntries, ih (by omega)]
    rfl
  | case2 children short =>
    cases children with
    | nil => rfl
    | cons name rest =>
      cases rest with
      | nil => simp at even
      | cons value rest => exact absurd rfl (short name value rest)

theorem bundleFields_append (accepts : Tree → Bool) (front back : List (Tree × Tree))
    (fields : Option Bytes × Nat) :
    bundleFields accepts (front ++ back) fields =
      (bundleFields accepts front fields).bind (bundleFields accepts back) := by
  induction front generalizing fields with
  | nil => rfl
  | cons entry rest ih =>
    obtain ⟨key, value⟩ := entry
    rw [List.cons_append, bundleFields, bundleFields]
    split
    next => exact ih _
    next =>
      split
      next =>
        split
        next => exact ih _
        next => rfl
      next =>
        split
        next =>
          split
          next => rfl
          next => exact ih _
        next => exact ih _

theorem keyValue_keyNode (key : Bytes) : keyValue (keyNode key) = some key := by
  simp [keyValue, keyNode, Plist.plistKeyValue, Plist.plistNodeCast, Plist.plistNodeTypes,
    Plist.plistNodeShape, Tree.plistNode, Tree.plistNodes, Plist.XmlNode.name, Plist.xmlNodeContent,
    Plist.xmlNodeChildren, Plist.XmlNode.children]

theorem keys_differ : mkextExecutableKey ≠ infoBundleIdentifierKey ∧
    mkextBundlePathKey ≠ infoBundleIdentifierKey ∧ mkextBundlePathKey ≠ mkextExecutableKey := by
  decide

theorem bundleFields_path (accepts : Tree → Bool) (bundlePath : Bytes) (fields : Option Bytes × Nat) :
    bundleFields accepts (dictEntries (pathNodes bundlePath)) fields = some fields := by
  simp [pathNodes, dictEntries, bundleFields, keyValue_keyNode, keys_differ]

theorem bundleFields_executable (accepts : Tree → Bool) {binOffset : Nat} (fits : binOffset < u32)
    (fields : Option Bytes × Nat) :
    bundleFields accepts (dictEntries (executableNodes binOffset)) fields =
      some (fields.1, binOffset) := by
  simp only [executableNodes, dictEntries, bundleFields, keyValue_keyNode, keys_differ.1, if_false,
    if_true, integerValue_hex fits]

section Stated

variable {children : List Tree} {identifier : Option Bytes} {offset : Nat}

section

variable (even : children.length % 2 = 0)
  (stated : statedFields children = some (identifier, offset)) (bundlePath : Bytes)
include even stated bundlePath

theorem statedFields_path :
    statedFields (children ++ pathNodes bundlePath) = some (identifier, offset) := by
  rw [statedFields] at stated ⊢
  rw [dictEntries_append even, bundleFields_append, stated, Option.bind_some, bundleFields_path]

theorem statedFields_executable {binOffset : Nat} (fits : binOffset < u32) :
    statedFields (children ++ (executableNodes binOffset ++ pathNodes bundlePath)) =
      some (identifier, binOffset) := by
  rw [statedFields] at stated ⊢
  rw [dictEntries_append even, bundleFields_append, stated, Option.bind_some,
    dictEntries_append (by simp [executableNodes]), bundleFields_append, bundleFields_executable _ fits,
    Option.bind_some, bundleFields_path]

end

end Stated

theorem isDict_even {tree : Tree} (dict : isDict tree = true) : (Tree.children tree).length % 2 = 0 := by
  cases tree with
  | mk name attributes content children =>
    have lengths : ∀ trees : List Tree, (Tree.plistNodes trees).length = trees.length := by
      intro trees
      induction trees with
      | nil => rfl
      | cons tree rest ih => rw [Tree.plistNodes, List.length_cons, List.length_cons, ih]
    simp only [isDict, Plist.plistNodeCast, Plist.plistNodeTypes, Plist.plistNodeShape, Tree.plistNode,
      Plist.xmlNodeChildren, Plist.XmlNode.children, lengths] at dict
    split at dict
    · cases dict
    · split at dict
      next even => simpa [Tree.children] using even
      next => cases dict

theorem documentDict_eq_some {root dict : Tree} (found : documentDict root = some dict) :
    Tree.children root = [dict] ∧ isDict dict = true := by
  unfold documentDict at found
  split at found
  next =>
    split at found
    next only children =>
      split at found
      next isDict =>
        cases found
        exact ⟨children, isDict⟩
      next => cases found
    next => cases found
  next => cases found

theorem bundleNode_shows {length : Nat} {root dict : Tree} {added : List Tree}
    (ended : AllEnded (Tree.children dict ++ added))
    (small : Small (length + 1) (listText (Tree.children dict ++ added)).length) :
    Tree.children (bundleNode length root dict added) = [] ∧
      Tree.content (bundleNode length root dict added) =
        some (listText (Tree.children dict ++ added)) := by
  refine ⟨rfl, ?_⟩
  rw [bundleNode, Tree.content]
  cases root with
  | mk name attributes content children =>
    cases dict with
    | mk name' attributes' content' children' =>
      simp only [Tree.withChildren, Tree.children] at ended small ⊢
      obtain ⟨buffer, exported, holds, stop⟩ := @exportTree_inside length name attributes content
        name' attributes' content' (children' ++ added) small
      rw [exported, Option.map_some, cString_of_take holds (listText_ended _ ended) stop]

section Added

theorem constants_ended : 0 ∉ ascii "key" ∧ 0 ∉ ascii "string" ∧ 0 ∉ ascii "integer" ∧
    0 ∉ mkextExecutableKey ∧ 0 ∉ mkextBundlePathKey ∧ 0 ∉ mkextInfoIntegerAttributes := by decide

theorem pathNodes_ended {bundlePath : Bytes} (ended : 0 ∉ bundlePath) :
    AllEnded (pathNodes bundlePath) := by
  simp [pathNodes, keyNode, AllEnded, Ended, constants_ended, ended]

theorem executableNodes_ended (binOffset : Nat) : AllEnded (executableNodes binOffset) := by
  simp [executableNodes, keyNode, AllEnded, Ended, constants_ended, hexText_ended]

theorem pathNodes_size (bundlePath : Bytes) :
    (listText (pathNodes bundlePath)).length ≤ bundlePath.length + 512 := by
  have constants : (ascii "key").length = 3 ∧ (ascii "string").length = 6 ∧
      mkextBundlePathKey.length = 16 := by decide
  simp [pathNodes, keyNode, listText_length, listWrittenSize, writtenSize, constants]
  omega

theorem executableNodes_size {binOffset : Nat} (fits : binOffset < u32) :
    (listText (executableNodes binOffset)).length ≤ 512 := by
  have constants : (ascii "key").length = 3 ∧ (ascii "integer").length = 7 ∧
      mkextExecutableKey.length = 16 ∧ mkextInfoIntegerAttributes.length = 9 := by decide
  have digits := hexText_length fits
  rw [kextOffsetStrLen] at digits
  simp [executableNodes, keyNode, listText_length, listWrittenSize, writtenSize, constants]
  omega

end Added

def fileEntry (binary : Bytes) : Bytes := toBigEndian 4 0 ++ (toBigEndian 4 binary.length ++ binary)

def listBundle (context : MkextContext) (info : MkextInfo) (document : XmlDocument) (dict : Tree)
    (added : List Tree) : MkextContext :=
  { context with
    info := some (appendBundle info (bundleNode document.length document.root.tree dict added)) }

inductive PlacedV2 (context : MkextContext) (info : MkextInfo) (injection : Injection)
    (document : XmlDocument) (dict : Tree) : MkextContext → Nat → Nat → Prop where
  | plistOnly : injection.executable = none →
      PlacedV2 context info injection document dict
        (listBundle context info document dict (pathNodes injection.bundlePath)) 0 0
  | executable (binary : Bytes) : injection.executable ≠ none → binary.length < u32 →
      context.mkextInfoOffset + v2FileEntrySize + mkextAlign binary.length < context.mkext.length →
      PlacedV2 context info injection document dict
        { listBundle context info document dict
            (executableNodes context.mkextInfoOffset ++ pathNodes injection.bundlePath) with
          mkext := overlay context.mkext context.mkextInfoOffset (fileEntry binary),
          mkextInfoOffset := context.mkextInfoOffset + v2FileEntrySize + mkextAlign binary.length }
        (context.mkextInfoOffset + v2FileEntrySize) binary.length

theorem injectV2_placed {env : KextExternals} {context after : MkextContext} {info : MkextInfo}
    {injection : Injection} {document : XmlDocument} {dict : Tree} {binOffset binSize : Nat}
    (injected : injectV2 env context info injection document dict =
      .ok (after, binOffset, binSize)) :
    PlacedV2 context info injection document dict after binOffset binSize := by
  unfold injectV2 at injected
  simp only at injected
  split at injected
  next absent =>
    split at injected
    · cases injected
    · simp only [Except.ok.injEq, Prod.mk.injEq] at injected
      obtain ⟨rfl, rfl, rfl⟩ := injected
      exact .plistOnly absent
  next executable present =>
    split at injected
    · cases injected
    next binary parsed =>
      split at injected
      · cases injected
      next plistOffset added =>
        obtain ⟨offset, -⟩ := baseOverflowTriAdd_eq_some added
        split at injected
        · cases injected
        next kept =>
          rw [mkextAlign32_of_kept kept] at offset
          split at injected
          · cases injected
          next inside =>
            split at injected
            · cases injected
            · simp only [Except.ok.injEq, Prod.mk.injEq] at injected
              obtain ⟨rfl, rfl, rfl⟩ := injected
              have given : injection.executable ≠ none := by
                rw [present]
                exact Option.some_ne_none executable
              subst offset
              exact .executable binary given (lt_of_mkextAlign32 kept) (Nat.lt_of_not_le inside)

theorem fileEntry_length (binary : Bytes) :
    (fileEntry binary).length = v2FileEntrySize + binary.length := by
  simp [fileEntry, v2FileEntrySize]
  omega

section FileEntry

variable {mkext binary : Bytes} {offset : Nat}

theorem slice_fileEntry (inside : offset + v2FileEntrySize + binary.length ≤ mkext.length)
    {inner size : Nat} (within : inner + size ≤ v2FileEntrySize + binary.length) :
    slice (overlay mkext offset (fileEntry binary)) (offset + inner) size =
      slice (fileEntry binary) inner size := by
  have length := fileEntry_length binary
  rw [← slice_slice within, ← length, slice_overlay_same (by rw [length]; omega)]

theorem fileEntry_reads (inside : offset + v2FileEntrySize + binary.length ≤ mkext.length)
    (small : binary.length < u32) :
    word (overlay mkext offset (fileEntry binary)) offset = 0 ∧
      word (overlay mkext offset (fileEntry binary)) (offset + 4) = binary.length ∧
      slice (overlay mkext offset (fileEntry binary)) (offset + v2FileEntrySize) binary.length =
        binary := by
  have entry : v2FileEntrySize = 8 := rfl
  have length4 : ∀ value, (toBigEndian 4 value).length = 4 := length_toBigEndian 4
  have first := @slice_fileEntry mkext binary offset inside 0 4 (by omega)
  have second := @slice_fileEntry mkext binary offset inside 4 4 (by omega)
  have third := @slice_fileEntry mkext binary offset inside 8 binary.length (by omega)
  have gone : ∀ value count, 4 ≤ count → (toBigEndian 4 value).drop count = [] :=
    fun value count enough => List.drop_eq_nil_of_le (by rw [length4]; exact enough)
  have pieces : slice (fileEntry binary) 0 4 = toBigEndian 4 0 ∧
      slice (fileEntry binary) 4 4 = toBigEndian 4 binary.length ∧
      slice (fileEntry binary) 8 binary.length = binary := by
    simp [slice, fileEntry, List.drop_append, length4, gone]
  rw [add_zero] at first
  refine ⟨?_, ?_, third.trans pieces.2.2⟩
  · rw [word, first, pieces.1]
    rfl
  · rw [word, second, pieces.2.1]
    exact bigEndian_toBigEndian small

end FileEntry

end OpenCore.MkextBundles
