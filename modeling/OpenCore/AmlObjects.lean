import Mathlib.Data.List.Basic
import Mathlib.Tactic.Ring

/-!
Tables of Scope, Device and Method objects: the objects in document order with their names
behind those of the scopes around them, and the bytes that encode them. A package length may
take any of its four forms and a name any of its three; a Method has its flags and its code
as bytes. `follow` is the pointer into the sought path that the lookup keeps: a scope that
goes on with the path moves it, any other one sets it back to the start.
-/

namespace OpenCore.AmlObjects

open List

section Names

def LeadChar (byte : UInt8) : Prop := 0x41 ≤ byte ∧ byte ≤ 0x5A ∨ byte = 0x5F

def NameChar (byte : UInt8) : Prop := LeadChar byte ∨ 0x30 ≤ byte ∧ byte ≤ 0x39

instance : DecidablePred LeadChar := fun _ => inferInstanceAs (Decidable (_ ∨ _))

instance : DecidablePred NameChar := fun _ => inferInstanceAs (Decidable (_ ∨ _))

structure Segment where
  first : UInt8
  second : UInt8
  third : UInt8
  fourth : UInt8
  lead : LeadChar first
  chars : NameChar second ∧ NameChar third ∧ NameChar fourth

namespace Segment

variable (segment : Segment)

def bytes : List UInt8 := [segment.first, segment.second, segment.third, segment.fourth]

def identifier : UInt32 :=
  UInt32.ofNat (segment.first.toNat * 2 ^ 24 + segment.second.toNat * 2 ^ 16 +
    segment.third.toNat * 2 ^ 8 + segment.fourth.toNat)

end Segment

inductive NameForm where
  | single
  | dual
  | multi

def NameForm.Holds : NameForm → Nat → Prop
  | .single, count => count = 1
  | .dual, count => count = 2
  | .multi, count => 0 < count ∧ count < 256

structure Name where
  form : NameForm
  segments : List Segment
  holds : form.Holds segments.length

namespace Name

variable (name : Name)

def identifiers : List UInt32 := name.segments.map Segment.identifier

def leading : List UInt8 :=
  match name.form with
  | .single => []
  | .dual => [0x2E]
  | .multi => [0x2F, UInt8.ofNat name.segments.length]

def encode : List UInt8 := name.leading ++ name.segments.flatMap Segment.bytes

theorem segments_pos : 0 < name.segments.length := by
  obtain ⟨form, segments, holds⟩ := name
  cases form with
  | single => exact Nat.lt_of_lt_of_eq Nat.one_pos (Eq.symm holds)
  | dual => exact Nat.lt_of_lt_of_eq Nat.two_pos (Eq.symm holds)
  | multi => exact holds.1

theorem identifiers_ne_nil : name.identifiers ≠ [] := by
  apply ne_nil_of_length_pos
  rw [identifiers, length_map]
  exact name.segments_pos

end Name

end Names

section Objects

def encodeLength (extra length : Nat) : List UInt8 :=
  if extra = 0 then [UInt8.ofNat length]
  else UInt8.ofNat (extra * 64 + length % 16) ::
    (List.range extra).map fun index => UInt8.ofNat (length / 16 / 256 ^ index)

def LengthFits (extra length : Nat) : Prop :=
  extra = 0 ∧ length < 64 ∨ 0 < extra ∧ extra < 4 ∧ length < 16 * 256 ^ extra

instance (extra length : Nat) : Decidable (LengthFits extra length) :=
  inferInstanceAs (Decidable (_ ∨ _))

theorem encodeLength_length (extra length : Nat) : (encodeLength extra length).length = extra + 1 := by
  rw [encodeLength]
  split
  · next zero => rw [zero, length_singleton]
  · rw [length_cons, length_map, length_range]

inductive BlockKind where
  | scope
  | device

def BlockKind.opcode : BlockKind → List UInt8
  | .scope => [0x10]
  | .device => [0x5B, 0x82]

/-- A sequence of objects: a block with the sequence inside it and the one behind
it, or a Method with its flags and code and the sequence behind it. -/
inductive Terms where
  | nil
  | block (kind : BlockKind) (extra : Nat) (name : Name) (inside rest : Terms)
  | method (extra : Nat) (name : Name) (code : List UInt8) (rest : Terms)

def packageLength (extra : Nat) (name : Name) (body : List UInt8) : Nat :=
  extra + 1 + name.encode.length + body.length

def encodePackage (extra : Nat) (name : Name) (body : List UInt8) : List UInt8 :=
  encodeLength extra (packageLength extra name body) ++ (name.encode ++ body)

namespace Terms

def encode : Terms → List UInt8
  | .nil => []
  | .block kind extra name inside rest =>
    kind.opcode ++ encodePackage extra name inside.encode ++ rest.encode
  | .method extra name code rest => 0x14 :: encodePackage extra name code ++ rest.encode

def WellFormed : Terms → Prop
  | .nil => True
  | .block _ extra name inside rest =>
    LengthFits extra (packageLength extra name inside.encode) ∧ inside.WellFormed ∧
      rest.WellFormed
  | .method extra name code rest => LengthFits extra (packageLength extra name code) ∧ rest.WellFormed

end Terms

theorem encodePackage_length (extra : Nat) (name : Name) (body : List UInt8) :
    (encodePackage extra name body).length = packageLength extra name body := by
  rw [encodePackage, length_append, length_append, encodeLength_length, packageLength]
  omega

structure Object where
  position : Nat
  name : List UInt32

/-- The objects in document order, for a sequence that starts at an offset inside
scopes of this name. -/
def Terms.objects : Terms → Nat → List UInt32 → List Object
  | .nil, _, _ => []
  | .block kind extra name inside rest, offset, outer =>
    let opcode := offset + kind.opcode.length
    let ends := opcode + packageLength extra name inside.encode
    ⟨opcode - 1, outer ++ name.identifiers⟩ ::
      (inside.objects (opcode + (extra + 1) + name.encode.length) (outer ++ name.identifiers) ++
        rest.objects ends outer)
  | .method extra name code rest, offset, outer =>
    ⟨offset, outer ++ name.identifiers⟩ ::
      rest.objects (offset + 1 + packageLength extra name code) outer

end Objects

section Path

variable (path : List UInt32)
variable {pointer : Nat}

def follow : Nat → List UInt32 → Nat
  | pointer, [] => pointer
  | pointer, identifier :: rest =>
    if path[pointer]? = some identifier then follow (pointer + 1) rest else 0

def enter (pointer : Nat) (name : List UInt32) : Nat :=
  if path.drop pointer = name then 0 else follow path pointer name

variable {path}

theorem follow_le {name : List UInt32} (within : pointer ≤ path.length) :
    follow path pointer name ≤ path.length := by
  induction name generalizing pointer with
  | nil => exact within
  | cons identifier rest ih =>
    rw [follow]
    split
    · next found => exact ih (List.getElem?_eq_some_iff.mp found).1
    · exact Nat.zero_le _

theorem follow_eq_length_iff {name : List UInt32} (within : pointer ≤ path.length)
    (some : 0 < path.length) : follow path pointer name = path.length ↔ path.drop pointer = name := by
  induction name generalizing pointer with
  | nil =>
    rw [follow, drop_eq_nil_iff]
    omega
  | cons identifier rest ih =>
    rw [follow]
    by_cases found : path[pointer]? = .some identifier
    · obtain ⟨before, same⟩ := List.getElem?_eq_some_iff.mp found
      rw [if_pos found, ih before, drop_eq_getElem_cons before, same, List.cons.injEq]
      exact (and_iff_right rfl).symm
    · rw [if_neg found]
      refine iff_of_false (by omega) ?_
      intro rest
      have head := congrArg List.head? rest
      rw [head?_drop] at head
      exact found head

theorem enter_lt {name : List UInt32} (within : pointer < path.length) :
    enter path pointer name < path.length := by
  have some : 0 < path.length := Nat.zero_lt_of_lt within
  rw [enter]
  split
  · exact some
  · next differs =>
      apply Nat.lt_of_le_of_ne (follow_le (Nat.le_of_lt within))
      exact fun ends => differs ((follow_eq_length_iff (Nat.le_of_lt within) some).mp ends)

variable (path)

structure Visit where
  object : Object
  depth : Nat
  counted : Bool

/-- The objects in document order, met with this many blocks around and the
pointer here. -/
def Terms.visits : Terms → Nat → List UInt32 → Nat → Nat → List Visit
  | .nil, _, _, _, _ => []
  | .block kind extra name inside rest, offset, outer, depth, pointer =>
    let opcode := offset + kind.opcode.length
    let ends := opcode + packageLength extra name inside.encode
    ⟨⟨opcode - 1, outer ++ name.identifiers⟩, depth, path.drop pointer = name.identifiers⟩ ::
      (inside.visits (opcode + (extra + 1) + name.encode.length) (outer ++ name.identifiers)
          (depth + 1) (enter path pointer name.identifiers) ++
        rest.visits ends outer depth pointer)
  | .method extra name code rest, offset, outer, depth, pointer =>
    ⟨⟨offset, outer ++ name.identifiers⟩, depth, path.drop pointer = name.identifiers⟩ ::
      rest.visits (offset + 1 + packageLength extra name code) outer depth pointer

inductive Verdict where
  | goesOn (counted : Nat)
  | found (position : Nat)
  | tooDeep

/-- The lookup over the objects in document order: it counts up to the required
one and fails at an object that lies too deep. -/
def look (deepest required : Nat) : List Visit → Nat → Verdict
  | [], counted => .goesOn counted
  | visit :: rest, counted =>
    if deepest < visit.depth then .tooDeep
    else if visit.counted then
      if counted + 1 = required then .found visit.object.position
      else look deepest required rest (counted + 1)
    else look deepest required rest counted

def Verdict.andThen (verdict : Verdict) (next : Nat → Verdict) : Verdict :=
  match verdict with
  | .goesOn counted => next counted
  | .found position => .found position
  | .tooDeep => .tooDeep

theorem look_append {deepest required counted : Nat} (front rest : List Visit) :
    look deepest required (front ++ rest) counted =
      (look deepest required front counted).andThen (look deepest required rest) := by
  induction front generalizing counted with
  | nil => rfl
  | cons visit front ih =>
    rw [cons_append, look, look]
    split
    · rfl
    split
    · split
      · rfl
      · exact ih
    · exact ih

end Path

end OpenCore.AmlObjects
