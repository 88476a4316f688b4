import OpenCore.AcpiParser
import OpenCore.Base
import OpenCore.BigEndian

/-!
`GetOpcodeArray`, loop by loop: the dots are counted, then as many identifiers as
were counted are walked over and translated. The index of the first loop is a
`UINT32` against a longer length, and the length of an identifier is a `UINT8`, so
that one of 256 characters reads as empty.
-/

namespace OpenCore.AcpiPath

open Base BigEndian AcpiContext AcpiParser List

def dot : UInt8 := 0x2E
def backslash : UInt8 := 0x5C
def underscore : UInt8 := 0x5F

section Loops

def countDots (path : List UInt8) : Nat → Nat → Nat → Option Nat
  | 0, _, _ => none
  | fuel + 1, index, dots =>
    if index < path.length then
      countDots path fuel ((index + 1) % u32)
        (if path[index]? = some dot then (dots + 1) % u32 else dots)
    else some dots

def translateIdentifiers : Nat → List UInt8 → Except EfiStatus (List UInt32)
  | 0, _ => .ok []
  | count + 1, walker =>
    let name := walker.takeWhile fun ch => ch != dot
    if name.length < 1 then .error .invalidParameter
    else
      match translateNameToOpcodes name with
      | none => .error .invalidParameter
      | some opcodes =>
        (translateIdentifiers count (walker.drop (name.length + 1))).map (opcodes :: ·)

def stripped (pathString : List UInt8) : List UInt8 :=
  if pathString.head? = some backslash then pathString.tail else pathString

/-- `GetOpcodeArray`; no result is a loop that does not end within the fuel. -/
def runOpcodeArray (allocates : Nat → Bool) (fuel : Nat) (pathString : List UInt8) :
    Option (Except EfiStatus (List UInt32)) :=
  let path := stripped pathString
  if path.length = 0 then some (.error .invalidParameter)
  else
    (countDots path fuel 0 0).map fun dots =>
      let pathLength := (dots + 1) % u32
      if allocates (4 * pathLength) then translateIdentifiers pathLength path
      else .error .outOfResources

end Loops

section Grammar

def IsNameCharacter (ch : UInt8) : Prop :=
  0x61 ≤ ch ∧ ch ≤ 0x7A ∨ 0x41 ≤ ch ∧ ch ≤ 0x5A ∨
    0x30 ≤ ch ∧ ch ≤ 0x39 ∨ ch = underscore

instance (ch : UInt8) : Decidable (IsNameCharacter ch) :=
  inferInstanceAs (Decidable (_ ∨ _))

def upperCase (ch : UInt8) : UInt8 :=
  if 0x61 ≤ ch ∧ ch ≤ 0x7A then ch - 0x20 else ch

structure ValidName (name : List UInt8) : Prop where
  nonempty : name ≠ []
  short : name.length ≤ identLen
  characters : ∀ ch ∈ name, IsNameCharacter ch

structure PathOf (names : List (List UInt8)) (pathString : List UInt8) : Prop where
  nonempty : names ≠ []
  undotted : ∀ name ∈ names, dot ∉ name
  joined : stripped pathString = [dot].intercalate names

def nameValue (name : List UInt8) : Nat :=
  bigEndian (name.map upperCase ++ replicate (identLen - name.length) underscore)

end Grammar

section Characters

variable {ch : UInt8}

theorem translateCharacter_name (named : IsNameCharacter ch) :
    translateCharacter ch = some (upperCase ch) := by
  unfold translateCharacter upperCase
  split
  next => congr 1; grind
  next =>
    split
    next => congr 1; grind
    next =>
      split
      next => congr 1; grind
      next =>
        rcases named with lower | upper | digit | same
        · contradiction
        · contradiction
        · contradiction
        · rw [same]
          rfl

theorem translateCharacter_other (other : ¬ IsNameCharacter ch) :
    translateCharacter ch = none := by
  unfold IsNameCharacter underscore at other
  simp only [not_or] at other
  rw [translateCharacter, if_neg other.1, if_neg other.2.1, if_neg other.2.2.1, if_neg other.2.2.2]

end Characters

section Names

variable {characters : List UInt8}

def seen (name : List UInt8) : List UInt8 := name.take (name.length % 256)

structure Accepted (name : List UInt8) : Prop where
  nonempty : name ≠ []
  short : name.length % 256 ≤ identLen
  characters : ∀ ch ∈ seen name, IsNameCharacter ch

def pack (opcodes : Option UInt32) (ch : UInt8) : Option UInt32 := do
  let front ← opcodes
  let opcode ← translateCharacter ch
  some (UInt32.ofNat (front.toNat * 256 ||| opcode.toNat))

def padded (name : List UInt8) : List UInt8 :=
  seen name ++ replicate (identLen - name.length % 256) underscore

variable {name : List UInt8}

theorem seen_length : (seen name).length = name.length % 256 := by
  rw [seen, length_take, Nat.min_eq_left (Nat.mod_le _ _)]

theorem padded_length (short : name.length % 256 ≤ identLen) : (padded name).length = identLen := by
  rw [padded, length_append, seen_length, length_replicate]
  exact Nat.add_sub_cancel' short

theorem padded_eq (short : name.length % 256 ≤ identLen) :
    padded name = (List.range identLen).map fun index =>
      if index < name.length % 256 then name.getD index 0 else underscore := by
  apply ext_getElem
  · rw [padded_length short, length_map, length_range]
  intro index bound bound'
  have inside : name.length % 256 ≤ name.length := Nat.mod_le _ _
  rw [getElem_map, getElem_range]
  split
  next early =>
    simp only [padded]
    rw [getElem_append_left (by rw [seen_length]; exact early)]
    simp only [seen, getElem_take, getD_eq_getElem?_getD]
    rw [getElem?_eq_getElem (Nat.lt_of_lt_of_le early inside), Option.getD_some]
  next late =>
    simp only [padded]
    rw [getElem_append_right (by rw [seen_length]; omega), getElem_replicate]

theorem translateNameToOpcodes_eq : translateNameToOpcodes name =
    if identLen < name.length % 256 then none else (padded name).foldl pack (some 0) := by
  unfold translateNameToOpcodes
  simp only
  split
  next => rfl
  next short =>
    rw [padded_eq (Nat.le_of_not_lt short), foldl_map]
    congr 1
    funext opcodes index
    unfold pack
    split
    next => rfl
    next => rfl

theorem foldl_pack_none (characters : List UInt8) : characters.foldl pack none = none := by
  induction characters with
  | nil => rfl
  | cons ch rest ih => exact ih

theorem foldl_pack_other (front : Option UInt32) (other : ∃ ch ∈ characters, ¬ IsNameCharacter ch) :
    characters.foldl pack front = none := by
  induction characters generalizing front with
  | nil =>
    obtain ⟨ch, member, -⟩ := other
    exact absurd member not_mem_nil
  | cons ch rest ih =>
    rw [foldl_cons]
    by_cases named : IsNameCharacter ch
    · obtain ⟨wrong, member, unnamed⟩ := other
      rcases mem_cons.mp member with rfl | behind
      · exact absurd named unnamed
      · exact ih _ ⟨wrong, behind, unnamed⟩
    · have stops : pack front ch = none := by
        cases front with
        | none => rfl
        | some opcodes =>
          rw [pack, translateCharacter_other named]
          rfl
      rw [stops, foldl_pack_none]

theorem foldl_pack_named {front : UInt32} (named : ∀ ch ∈ characters, IsNameCharacter ch)
    (room : (front.toNat + 1) * 256 ^ characters.length ≤ 2 ^ 32) :
    ∃ opcodes, characters.foldl pack (some front) = some opcodes ∧
      opcodes.toNat = front.toNat * 256 ^ characters.length + bigEndian (characters.map upperCase) := by
  induction characters generalizing front with
  | nil => exact ⟨front, rfl, by rw [length_nil, map_nil, bigEndian_nil]; omega⟩
  | cons ch rest ih =>
    have byte := (upperCase ch).toNat_lt
    have joined : front.toNat * 256 ||| (upperCase ch).toNat =
        front.toNat * 256 + (upperCase ch).toNat := by
      have shifted := Nat.shiftLeft_add_eq_or_of_lt (i := 8) byte front.toNat
      rw [Nat.shiftLeft_eq] at shifted
      exact shifted.symm
    rw [length_cons, Nat.pow_succ', ← Nat.mul_assoc] at room
    have positive : 0 < 256 ^ rest.length := Nat.pow_pos (by decide)
    have small : (front.toNat + 1) * 256 ≤ 2 ^ 32 :=
      Nat.le_trans (Nat.le_mul_of_pos_right _ positive) room
    have value : (UInt32.ofNat (front.toNat * 256 + (upperCase ch).toNat)).toNat =
        front.toNat * 256 + (upperCase ch).toNat := by
      rw [UInt32.toNat_ofNat']
      exact Nat.mod_eq_of_lt (by omega)
    have turn : pack (some front) ch =
        some (UInt32.ofNat (front.toNat * 256 + (upperCase ch).toNat)) := by
      rw [pack, translateCharacter_name (named ch mem_cons_self), ← joined]
      rfl
    have room' : ((UInt32.ofNat (front.toNat * 256 + (upperCase ch).toNat)).toNat + 1) *
        256 ^ rest.length ≤ 2 ^ 32 := by
      rw [value]
      exact Nat.le_trans (Nat.mul_le_mul_right _ (by omega)) room
    obtain ⟨opcodes, folded, total⟩ :=
      ih (fun other member => named other (mem_cons_of_mem _ member)) room'
    refine ⟨opcodes, by rw [foldl_cons, turn, folded], ?_⟩
    have split := bigEndian_append [upperCase ch] (rest.map upperCase)
    have single : bigEndian [upperCase ch] = (upperCase ch).toNat := by
      rw [bigEndian, foldl_cons, foldl_nil, Nat.zero_mul, Nat.zero_add]
    rw [total, value, map_cons, length_cons, ← singleton_append, split, single, length_map]
    ring

theorem named_padded (named : ∀ ch ∈ seen name, IsNameCharacter ch) :
    ∀ ch ∈ padded name, IsNameCharacter ch := by
  intro ch member
  rcases mem_append.mp member with front | back
  · exact named ch front
  · exact .inr (.inr (.inr (eq_of_mem_replicate back)))

theorem translateNameToOpcodes_accepted (accepted : Accepted name) :
    ∃ opcodes, translateNameToOpcodes name = some opcodes ∧
      opcodes.toNat = bigEndian ((padded name).map upperCase) := by
  have length := padded_length accepted.short
  obtain ⟨opcodes, folded, value⟩ := @foldl_pack_named _ 0 (named_padded accepted.characters)
    (by rw [length]; decide)
  refine ⟨opcodes, ?_, by rw [value, UInt32.toNat_zero]; omega⟩
  rw [translateNameToOpcodes_eq, if_neg (Nat.not_lt.mpr accepted.short)]
  exact folded

theorem translateNameToOpcodes_refused (nonempty : name ≠ []) (refused : ¬ Accepted name) :
    translateNameToOpcodes name = none := by
  rw [translateNameToOpcodes_eq]
  split
  next => rfl
  next short =>
    apply foldl_pack_other
    by_contra all
    refine refused ⟨nonempty, Nat.le_of_not_lt short, fun ch member => ?_⟩
    by_contra unnamed
    exact all ⟨ch, mem_append_left _ member, unnamed⟩

theorem seen_short (short : name.length ≤ identLen) : seen name = name := by
  have small : name.length < 256 := Nat.lt_of_le_of_lt short (by decide)
  rw [seen, Nat.mod_eq_of_lt small, take_length]

theorem accepted_iff_valid (short : name.length ≤ identLen) : Accepted name ↔ ValidName name := by
  have small : name.length < 256 := Nat.lt_of_le_of_lt short (by decide)
  constructor
  · intro accepted
    have characters := accepted.characters
    rw [seen_short short] at characters
    exact ⟨accepted.nonempty, short, characters⟩
  · intro valid
    refine ⟨valid.nonempty, by rw [Nat.mod_eq_of_lt small]; exact short, ?_⟩
    rw [seen_short short]
    exact valid.characters

theorem padded_value (short : name.length ≤ identLen) :
    bigEndian ((padded name).map upperCase) = nameValue name := by
  have small : name.length < 256 := Nat.lt_of_le_of_lt short (by decide)
  have kept : upperCase underscore = underscore := rfl
  rw [padded, seen_short short, Nat.mod_eq_of_lt small, nameValue, map_append, map_replicate, kept]

end Names

section Walk

variable {path : List UInt8}
variable {names : List (List UInt8)} {fuel index dots : Nat}

theorem countDots_eq (small : path.length < u32) (inside : index ≤ path.length)
    (few : dots + (path.drop index).count dot < u32) :
    countDots path fuel index dots =
      if path.length - index < fuel then some (dots + (path.drop index).count dot) else none := by
  induction fuel generalizing index dots with
  | zero => rfl
  | succ fuel ih =>
    rw [countDots]
    split
    next more =>
      have rest : path.drop index = path[index] :: path.drop (index + 1) :=
        drop_eq_getElem_cons more
      have next : (index + 1) % u32 = index + 1 := Nat.mod_eq_of_lt (Nat.lt_of_le_of_lt more small)
      have turn : (if path[index]? = some dot then (dots + 1) % u32 else dots) +
          (path.drop (index + 1)).count dot = dots + (path.drop index).count dot := by
        rw [rest, count_cons, getElem?_eq_getElem more]
        rw [rest, count_cons] at few
        by_cases same : path[index] = dot
        · rw [same] at few ⊢
          rw [if_pos rfl, beq_self_eq_true, if_pos rfl]
          rw [beq_self_eq_true, if_pos rfl] at few
          rw [Nat.mod_eq_of_lt (by omega)]
          omega
        · rw [if_neg (fun equal => same (Option.some.inj equal)), if_neg (by simpa using same)]
          omega
      rw [next, ih more (by rw [turn]; exact few), turn]
      congr 1
      exact propext (by omega)
    next past =>
      have last : index = path.length := Nat.le_antisymm inside (Nat.le_of_not_lt past)
      rw [if_pos (by omega), last, drop_length, count_nil, Nat.add_zero]

theorem countDots_long (long : u32 ≤ path.length) (inside : index < u32) :
    countDots path fuel index dots = none := by
  induction fuel generalizing index dots with
  | zero => rfl
  | succ fuel ih =>
    rw [countDots, if_pos (Nat.lt_of_lt_of_le inside long)]
    exact ih (Nat.mod_lt _ (by decide))

def translateNames : List (List UInt8) → Except EfiStatus (List UInt32)
  | [] => .ok []
  | name :: rest =>
    if name.length < 1 then .error .invalidParameter
    else
      match translateNameToOpcodes name with
      | none => .error .invalidParameter
      | some opcodes => (translateNames rest).map (opcodes :: ·)

theorem takeWhile_undotted {name : List UInt8} (undotted : dot ∉ name) (behind : List UInt8) :
    (name ++ behind).takeWhile (fun ch => ch != dot) =
      name ++ behind.takeWhile fun ch => ch != dot :=
  takeWhile_append_of_pos fun _ member => bne_iff_ne.mpr fun same => undotted (same ▸ member)

theorem translateIdentifiers_eq (path : List UInt8) :
    translateIdentifiers (path.count dot + 1) path = translateNames (path.splitOn dot) := by
  induction count : path.count dot generalizing path with
  | zero =>
    have undotted : dot ∉ path := count_eq_zero.mp count
    have whole := takeWhile_undotted undotted []
    rw [append_nil, takeWhile_nil, append_nil] at whole
    rw [splitOn_eq_singleton undotted, translateIdentifiers, translateNames, whole]
    rfl
  | succ dots ih =>
    have dotted : dot ∈ path := count_pos_iff.mp (by omega)
    obtain ⟨name, behind, rfl, undotted⟩ := eq_append_cons_of_mem dotted
    have fewer : behind.count dot = dots := by
      rw [count_append, count_eq_zero.mpr undotted, count_cons_self] at count
      omega
    have first : (name ++ dot :: behind).takeWhile (fun ch => ch != dot) = name := by
      rw [takeWhile_undotted undotted, takeWhile_cons_of_neg (by simp), append_nil]
    have rest : (name ++ dot :: behind).drop (name.length + 1) = behind := by
      rw [drop_append, drop_of_length_le (Nat.le_succ _), nil_append, Nat.add_sub_cancel_left]
      rfl
    rw [splitOn_append_cons_self_of_not_mem undotted, translateIdentifiers, translateNames, first,
      rest, ih behind fewer]

theorem translateNames_accepted (accepted : ∀ name ∈ names, Accepted name) :
    ∃ array, translateNames names = .ok array ∧
      array.map UInt32.toNat = names.map fun name => bigEndian ((padded name).map upperCase) := by
  induction names with
  | nil => exact ⟨[], rfl, rfl⟩
  | cons name rest ih =>
    have first := accepted name mem_cons_self
    obtain ⟨opcodes, translated, value⟩ := translateNameToOpcodes_accepted first
    obtain ⟨array, behind, values⟩ := ih fun other member => accepted other (mem_cons_of_mem _ member)
    have long : ¬ name.length < 1 := by
      have positive := length_pos_iff.mpr first.nonempty
      omega
    refine ⟨opcodes :: array, ?_, by rw [map_cons, map_cons, value, values]⟩
    rw [translateNames, if_neg long, translated, behind]
    rfl

theorem translateNames_refused (refused : ∃ name ∈ names, ¬ Accepted name) :
    translateNames names = .error .invalidParameter := by
  induction names with
  | nil =>
    obtain ⟨name, member, -⟩ := refused
    exact absurd member not_mem_nil
  | cons name rest ih =>
    rw [translateNames]
    split
    next => rfl
    next long =>
      have nonempty : name ≠ [] := fun empty => long (by rw [empty]; decide)
      by_cases accepted : Accepted name
      · obtain ⟨opcodes, translated, -⟩ := translateNameToOpcodes_accepted accepted
        obtain ⟨wrong, member, unaccepted⟩ := refused
        rcases mem_cons.mp member with rfl | behind
        · exact absurd accepted unaccepted
        · rw [translated, ih ⟨wrong, behind, unaccepted⟩]
          rfl
      · rw [translateNameToOpcodes_refused nonempty accepted]

end Walk

section Calls

variable {pathString : List UInt8}

def Returns (pathString : List UInt8) (result : Except EfiStatus (List UInt32)) : Prop :=
  ∃ fuel, runOpcodeArray (fun _ => true) fuel pathString = some result

structure Countable (pathString : List UInt8) : Prop where
  length : (stripped pathString).length < u32
  dots : (stripped pathString).count dot + 1 < u32

theorem Countable.returns_iff (countable : Countable pathString)
    {result : Except EfiStatus (List UInt32)} :
    Returns pathString result ↔ result = translateNames ((stripped pathString).splitOn dot) := by
  obtain ⟨length, dots⟩ := countable
  unfold Returns runOpcodeArray
  generalize stripped pathString = path at length dots
  simp only
  split
  next empty =>
    rw [eq_nil_of_length_eq_zero empty]
    constructor
    · rintro ⟨fuel, same⟩
      exact (Option.some.inj same).symm
    · rintro rfl
      exact ⟨0, rfl⟩
  next =>
    have counted : ∀ fuel, countDots path fuel 0 0 =
        if path.length < fuel then some (path.count dot) else none := by
      intro fuel
      have all := @countDots_eq path fuel 0 0 length (Nat.zero_le _) (by rw [drop_zero]; omega)
      simpa only [drop_zero, Nat.zero_add, Nat.sub_zero] using all
    have ran : ∀ fuel, path.length < fuel → (countDots path fuel 0 0).map (fun dots =>
          if (true : Bool) then translateIdentifiers ((dots + 1) % u32) path
          else .error .outOfResources) = some (translateNames (path.splitOn dot)) := by
      intro fuel enough
      rw [counted, if_pos enough, Option.map_some, if_pos rfl, Nat.mod_eq_of_lt dots,
        translateIdentifiers_eq]
    constructor
    · rintro ⟨fuel, same⟩
      by_cases enough : path.length < fuel
      · exact Option.some.inj (same.symm.trans (ran fuel enough))
      · rw [counted, if_neg enough] at same
        cases same
    · rintro rfl
      exact ⟨path.length + 1, ran _ (Nat.lt_succ_self _)⟩

theorem not_returns_long (long : u32 ≤ (stripped pathString).length)
    (result : Except EfiStatus (List UInt32)) : ¬ Returns pathString result := by
  rintro ⟨fuel, same⟩
  unfold runOpcodeArray at same
  have some : (stripped pathString).length ≠ 0 := by
    rw [u32] at long
    omega
  simp only [if_neg some, countDots_long long (by decide : 0 < u32)] at same
  cases same

theorem returns_wrapped (length : (stripped pathString).length < u32)
    (dots : u32 ≤ (stripped pathString).count dot + 1) : Returns pathString (.ok []) := by
  have most := count_le_length (a := dot) (l := stripped pathString)
  have counted := @countDots_eq (stripped pathString) ((stripped pathString).length + 1) 0 0 length
    (Nat.zero_le _) (by rw [drop_zero]; omega)
  rw [Nat.sub_zero, if_pos (Nat.lt_succ_self _), drop_zero, Nat.zero_add] at counted
  have wrapped : ((stripped pathString).count dot + 1) % u32 = 0 := by
    rw [show (stripped pathString).count dot + 1 = u32 by omega, Nat.mod_self]
  refine ⟨(stripped pathString).length + 1, ?_⟩
  unfold runOpcodeArray
  have some : (stripped pathString).length ≠ 0 := by
    rw [u32] at dots
    omega
  simp only [if_neg some, counted, Option.map_some, wrapped]
  rfl

end Calls

section Purpose

/-- Identifiers of one to four characters, as `GetOpcodeArray` is to accept them. -/
def WellFormedPath (pathString : List UInt8) : Prop :=
  ∃ names, PathOf names pathString ∧ ∀ name ∈ names, ValidName name

structure Translates (pathString : List UInt8) : Prop where
  succeeds : (∃ array, Returns pathString (.ok array)) ↔ WellFormedPath pathString
  entries : ∀ array names, Returns pathString (.ok array) → PathOf names pathString →
    array.map UInt32.toNat = names.map nameValue
  refuses : ¬ WellFormedPath pathString → Returns pathString (.error .invalidParameter)

structure Translatable (pathString : List UInt8) : Prop where
  countable : Countable pathString
  names : (∃ name ∈ (stripped pathString).splitOn dot, ¬ Accepted name) ∨
    ∀ name ∈ (stripped pathString).splitOn dot, name.length ≤ identLen

variable {pathString : List UInt8}

theorem PathOf.splitOn {names : List (List UInt8)} (path : PathOf names pathString) :
    (stripped pathString).splitOn dot = names := by
  rw [path.joined]
  exact splitOn_intercalate dot path.undotted path.nonempty

theorem dot_not_named : ¬ IsNameCharacter dot := by decide

theorem wellFormedPath_iff : WellFormedPath pathString ↔
    ∀ name ∈ (stripped pathString).splitOn dot, ValidName name := by
  constructor
  · rintro ⟨names, path, valid⟩
    rw [path.splitOn]
    exact valid
  · exact fun valid => ⟨_, ⟨splitOn_ne_nil _ _,
      fun name member dotted => dot_not_named ((valid name member).characters dot dotted),
      (intercalate_splitOn dot).symm⟩, valid⟩

theorem ValidName.accepted {name : List UInt8} (valid : ValidName name) : Accepted name :=
  (accepted_iff_valid valid.short).mpr valid

theorem Translatable.translates (translatable : Translatable pathString) : Translates pathString := by
  obtain ⟨countable, names⟩ := translatable
  by_cases some : ∃ name ∈ (stripped pathString).splitOn dot, ¬ Accepted name
  · obtain ⟨name, member, refused⟩ := some
    have failed := translateNames_refused ⟨name, member, refused⟩
    have returned : Returns pathString (.error .invalidParameter) :=
      countable.returns_iff.mpr failed.symm
    have nothing : ∀ array, ¬ Returns pathString (.ok array) := fun array found => by
      rw [countable.returns_iff, failed] at found
      cases found
    have malformed : ¬ WellFormedPath pathString := fun formed =>
      refused (wellFormedPath_iff.mp formed name member).accepted
    exact ⟨iff_of_false (fun ⟨array, found⟩ => nothing array found) malformed,
      fun array names found => absurd found (nothing array), fun _ => returned⟩
  · have short := names.resolve_left some
    have accepted : ∀ name ∈ (stripped pathString).splitOn dot, Accepted name :=
      fun name member => not_not.mp fun refused => some ⟨name, member, refused⟩
    obtain ⟨array, translated, values⟩ := translateNames_accepted accepted
    have formed : WellFormedPath pathString := wellFormedPath_iff.mpr fun name member =>
      (accepted_iff_valid (short name member)).mp (accepted name member)
    refine ⟨iff_of_true ⟨array, countable.returns_iff.mpr translated.symm⟩ formed,
      fun array' names found path => ?_, fun malformed => absurd formed malformed⟩
    have same := countable.returns_iff.mp found
    rw [translated] at same
    cases same
    rw [path.splitOn] at values short
    rw [values]
    exact map_congr_left fun name member => padded_value (short name member)

theorem Translates.translatable (translates : Translates pathString) : Translatable pathString := by
  have length : (stripped pathString).length < u32 := by
    by_contra long
    have never := not_returns_long (Nat.le_of_not_lt long)
    by_cases formed : WellFormedPath pathString
    · obtain ⟨array, found⟩ := translates.succeeds.mpr formed
      exact never _ found
    · exact never _ (translates.refuses formed)
  have dots : (stripped pathString).count dot + 1 < u32 := by
    by_contra wrapped
    have nothing := returns_wrapped length (Nat.le_of_not_lt wrapped)
    obtain ⟨names, path, -⟩ := translates.succeeds.mp ⟨[], nothing⟩
    have entries := translates.entries [] names nothing path
    exact path.nonempty (map_eq_nil_iff.mp entries.symm)
  refine ⟨⟨length, dots⟩, ?_⟩
  by_cases formed : WellFormedPath pathString
  · exact .inr fun name member => (wellFormedPath_iff.mp formed name member).short
  · left
    by_contra all
    have accepted : ∀ name ∈ (stripped pathString).splitOn dot, Accepted name :=
      fun name member => not_not.mp fun refused => all ⟨name, member, refused⟩
    obtain ⟨array, translated, -⟩ := translateNames_accepted accepted
    have found : Returns pathString (.ok array) :=
      (Countable.returns_iff ⟨length, dots⟩).mpr translated.symm
    exact formed (translates.succeeds.mp ⟨array, found⟩)

end Purpose

/-- Paths are accepted as they are to be just when the counters do not wrap and, if every
identifier is accepted by the low byte of its length, none is longer than four. -/
theorem getOpcodeArray_translates_iff (pathString : List UInt8) :
    Translates pathString ↔ Translatable pathString :=
  ⟨Translates.translatable, Translatable.translates⟩

/-- An identifier of 256 letters is translated as if it were empty. -/
theorem longName_translated : ¬ Translates (replicate 256 0x41) := by
  intro translates
  have names : (stripped (replicate 256 0x41)).splitOn dot = [replicate 256 0x41] := by
    have same : stripped (replicate 256 0x41) = replicate 256 0x41 := by
      rw [stripped, head?_replicate, if_neg (by decide : (256 : Nat) ≠ 0), if_neg (by decide)]
    rw [same]
    exact splitOn_eq_singleton fun member => absurd (eq_of_mem_replicate member) (by decide)
  have condition := translates.translatable.names
  rw [names] at condition
  rcases condition with ⟨name, member, refused⟩ | short
  · rw [mem_singleton.mp member] at refused
    refine refused ⟨fun empty => ?_, by rw [length_replicate]; decide, fun ch front => ?_⟩
    · have length := congrArg List.length empty
      rw [length_replicate] at length
      exact absurd length (by decide)
    · rw [eq_of_mem_replicate (mem_of_mem_take front)]
      decide
  · have four := short _ mem_cons_self
    rw [length_replicate] at four
    exact absurd four (by decide)

end OpenCore.AcpiPath
