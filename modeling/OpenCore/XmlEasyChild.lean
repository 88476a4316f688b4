import Mathlib.Data.List.Infix
import Mathlib.Data.List.Enum
import OpenCore.Plist

/-!
`XmlEasyChild`: a node is looked for along a path of names, each of which has to be unique among
the children. Nodes are told apart by their places in the tree, since two of them may look alike.
-/

namespace OpenCore.XmlEasyChild

open ByteBuffer Plist List

section Source

structure Place where
  position : List Nat
  node : XmlNode

def Place.children (place : Place) : List Place :=
  place.node.children.mapIdx fun index child => ⟨place.position ++ [index], child⟩

/-- The loop over the children: `Next` at its end, or nothing after an early return. -/
def scanChildren (childName : Bytes) : List Place → Option Place → Option (Option Place)
  | [], next => some next
  | child :: rest, next =>
    if child.node.name.value ≠ childName then
      match next with
      | none => scanChildren childName rest (some child)
      | some _ => none
    else scanChildren childName rest next

def xmlEasyChild : List Bytes → Place → Option Place
  | [], place => some place
  | childName :: names, place =>
    match scanChildren childName place.children none with
    | some (some next) => xmlEasyChild names next
    | _ => none

end Source

section Paths
variable {test other : Bytes → XmlNode → Bool} {place target child : Place} {names : List Bytes}
  {name : Bytes}
variable {children : List Place}

def carries (name : Bytes) (node : XmlNode) : Bool := node.name.value == name

def differs (name : Bytes) (node : XmlNode) : Bool := node.name.value != name

def passing (test : Bytes → XmlNode → Bool) (name : Bytes) (children : List Place) : List Place :=
  children.filter fun child => test name child.node

theorem passing_cons_of_pos (passes : test name child.node = true) :
    passing test name (child :: children) = child :: passing test name children :=
  filter_cons_of_pos passes

theorem passing_cons_of_neg (fails : ¬ test name child.node = true) :
    passing test name (child :: children) = passing test name children :=
  filter_cons_of_neg fails

inductive Reaches (test : Bytes → XmlNode → Bool) : Place → List Bytes → Place → Prop where
  | here {place : Place} : Reaches test place [] place
  | step {place child target : Place} {name : Bytes} {names : List Bytes}
      (unique : passing test name place.children = [child])
      (rest : Reaches test child names target) : Reaches test place (name :: names) target

theorem mem_children : child ∈ place.children ↔
    ∃ index, ∃ inside : index < place.node.children.length,
      child = ⟨place.position ++ [index], place.node.children[index]⟩ := by
  rw [Place.children, mem_mapIdx]
  exact exists_congr fun index => exists_congr fun inside => eq_comm

theorem children_position {first second : Place} (left : first ∈ place.children)
    (right : second ∈ place.children) (same : first.position = second.position) :
    first = second := by
  obtain ⟨index, inside, rfl⟩ := mem_children.mp left
  obtain ⟨index', inside', rfl⟩ := mem_children.mp right
  cases append_cancel_left same
  rfl

theorem mem_of_unique (unique : passing test name place.children = [child]) :
    child ∈ place.children ∧ test name child.node = true := by
  have member : child ∈ passing test name place.children := unique ▸ mem_cons_self
  exact mem_filter.mp member

theorem Reaches.leads (reaches : Reaches test place names target) :
    place.position <+: target.position := by
  induction reaches with
  | here => exact prefix_refl _
  | step unique _ ih =>
    obtain ⟨index, _, rfl⟩ := mem_children.mp (mem_of_unique unique).1
    exact (prefix_append _ _).trans ih

theorem Reaches.apart (opposite : ∀ name node, other name node = !test name node)
    (first : Reaches test place (name :: names) target)
    (second : Reaches other place (name :: names) target) : False := by
  cases first with
  | step unique rest =>
    cases second with
    | step unique' rest' =>
      obtain ⟨member, passes⟩ := mem_of_unique unique
      obtain ⟨member', passes'⟩ := mem_of_unique unique'
      have same := children_position member member' (by
        obtain ⟨_, _, rfl⟩ := mem_children.mp member
        obtain ⟨_, _, rfl⟩ := mem_children.mp member'
        have positions := prefix_of_prefix_length_le rest.leads rest'.leads
          (by rw [length_append, length_append]; exact le_refl _)
        exact positions.eq_of_length (by rw [length_append, length_append]; rfl))
      rw [opposite, ← same, passes] at passes'
      cases passes'

theorem scanChildren_found (children : List Place) (found : Place) :
    scanChildren name children (some found) =
      if passing differs name children = [] then some (some found)
      else none := by
  induction children with
  | nil => rfl
  | cons child rest ih =>
    rw [scanChildren]
    by_cases same : child.node.name.value = name
    · have keeps : ¬ differs name child.node = true := by
        rw [differs, bne_iff_ne]
        exact not_not_intro same
      rw [if_neg (not_not_intro same), ih, passing_cons_of_neg keeps]
    · have passes : differs name child.node = true := bne_iff_ne.mpr same
      rw [if_pos same, passing_cons_of_pos passes, if_neg (cons_ne_nil _ _)]

theorem scanChildren_eq_some (children : List Place) :
    scanChildren name children none = some (some child) ↔
      passing differs name children = [child] := by
  induction children with
  | nil =>
    constructor
    · intro clash
      cases clash
    · intro clash
      cases clash
  | cons first rest ih =>
    rw [scanChildren]
    by_cases same : first.node.name.value = name
    · have keeps : ¬ differs name first.node = true := by
        rw [differs, bne_iff_ne]
        exact not_not_intro same
      rw [if_neg (not_not_intro same), ih, passing_cons_of_neg keeps]
    · have passes : differs name first.node = true := bne_iff_ne.mpr same
      rw [if_pos same, passing_cons_of_pos passes]
      simp only [scanChildren_found]
      rw [cons_eq_cons]
      split
      · rename_i none
        rw [Option.some.injEq, Option.some.injEq]
        exact ⟨fun found => ⟨found, none⟩, And.left⟩
      · rename_i some
        constructor
        · intro clash
          cases clash
        · exact fun both => absurd both.2 some

theorem xmlEasyChild_eq_some :
    xmlEasyChild names place = some target ↔ Reaches differs place names target := by
  induction names generalizing place with
  | nil =>
    rw [xmlEasyChild, Option.some.injEq]
    constructor
    · rintro rfl
      exact .here
    · intro reaches
      cases reaches
      rfl
  | cons name names ih =>
    rw [xmlEasyChild]
    constructor
    · intro found
      split at found
      · rename_i next scanned
        exact .step ((scanChildren_eq_some _).mp scanned) (ih.mp found)
      · cases found
    · intro reaches
      cases reaches with
      | step unique rest =>
        rw [(scanChildren_eq_some _).mpr unique]
        exact ih.mpr rest

/-- The node along the path is returned only where there is none to return, and the chain of the
children that do not carry the names breaks off as well. -/
theorem xmlEasyChild_path (names : List Bytes) (place : Place) :
    (∀ target, xmlEasyChild names place = some target ↔ Reaches carries place names target) ↔
      names = [] ∨ ∀ target, ¬ Reaches carries place names target ∧
        ¬ Reaches differs place names target := by
  simp only [xmlEasyChild_eq_some]
  cases names with
  | nil =>
    refine iff_of_true (fun target => ?_) (.inl rfl)
    constructor
    · intro reaches
      cases reaches
      exact .here
    · intro reaches
      cases reaches
      exact .here
  | cons name names =>
    constructor
    · intro same
      refine .inr fun target => ?_
      have both : ¬ (Reaches carries place (name :: names) target ∧
          Reaches differs place (name :: names) target) :=
        fun ⟨first, second⟩ => first.apart (fun _ _ => rfl) second
      exact ⟨fun reaches => both ⟨reaches, (same target).mpr reaches⟩,
        fun reaches => both ⟨(same target).mp reaches, reaches⟩⟩
    · intro neither target
      obtain ⟨none, noOther⟩ := (neither.resolve_left (cons_ne_nil _ _)) target
      exact iff_of_false noOther none

def keyAndString : Place :=
  ⟨[], .mk (literal "dict") none none none
    [.mk (literal "key") none none none [], .mk (literal "string") none none none []]⟩

/-- The key is asked for and the string is returned. -/
theorem xmlEasyChild_keyAndString :
    ¬ ∀ target, xmlEasyChild [ascii "key"] keyAndString = some target ↔
      Reaches carries keyAndString [ascii "key"] target := by
  intro claim
  have found : xmlEasyChild [ascii "key"] keyAndString =
      some ⟨[1], .mk (literal "string") none none none []⟩ := rfl
  have reaches : Reaches carries keyAndString [ascii "key"]
      ⟨[0], .mk (literal "key") none none none []⟩ := .step rfl .here
  have returned := (claim _).mpr reaches
  rw [found] at returned
  cases returned

end Paths

end OpenCore.XmlEasyChild
