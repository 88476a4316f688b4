import OpenCore.DevicePathCompare
import OpenCore.JoinedPieces
import Mathlib.Data.List.DropRight
import Mathlib.Data.List.Zip

/-!
What the comparison of device paths answers. The names of neighbouring file path nodes
are pieces of one path, and the walk along them answers whether the paths are the same,
unless a boundary of one lies right behind a boundary of the other.
-/

namespace OpenCore.DevicePathEqual

open Base JoinedPieces DevicePathCompare List

section Names

variable {name : List UInt16}

def text (name : List UInt16) : List UInt16 := name.rdropWhile (· = 0)

def clip (text : List UInt16) : List UInt16 :=
  let front := if text.head? = some separator then text.tail else text
  if front.getLast? = some separator then front.dropLast else front

theorem charAt_done {index : Nat} (inside : index < name.length) :
    charAt name index = .done name[index] := by
  rw [charAt, getElem?_eq_getElem inside]

theorem trimLen_done {length : Nat} (inside : length ≤ name.length) :
    ∃ trimmed, trimLen name length = .done trimmed ∧ trimmed ≤ length ∧
      name.take trimmed = (name.take length).rdropWhile (· = 0) := by
  induction length with
  | zero => exact ⟨0, rfl, Nat.le_refl 0, rfl⟩
  | succ length ih =>
    rw [trimLen, charAt_done inside, Outcome.bind_done, take_succ_eq_append_getElem inside]
    split
    · next zero =>
        obtain ⟨trimmed, trims, below, same⟩ := ih (by omega)
        refine ⟨trimmed, trims, by omega, ?_⟩
        rw [same, rdropWhile_concat_pos _ _ _ (by simpa using zero)]
    · next other =>
        refine ⟨length + 1, rfl, Nat.le_refl _, ?_⟩
        rw [rdropWhile_concat_neg _ _ _ (by simpa using other), take_succ_eq_append_getElem inside]

theorem ocFileDevicePathNameLen_done (node : FilePath) :
    ocFileDevicePathNameLen node.pathName = .done (text node.pathName).length ∧
      node.pathName.take (text node.pathName).length = text node.pathName ∧
        (text node.pathName).length < node.pathName.length := by
  obtain ⟨name, terminated, fits⟩ := node
  simp only
  obtain ⟨front, rfl⟩ : ∃ front, name = front ++ [0] :=
    ⟨name.dropLast, (dropLast_append_getLast? 0 terminated).symm⟩
  have length : wrapSub u64 (front ++ [0]).length 1 = front.length := by
    rw [length_append, length_singleton] at fits ⊢
    rw [wrapSub_of_le (by omega) (by simp only [u16_val, u64_val] at *; omega)]
    omega
  have same : text (front ++ [0]) = front.rdropWhile (· = 0) :=
    rdropWhile_concat_pos _ _ _ (by decide)
  obtain ⟨trimmed, trims, below, taken⟩ := @trimLen_done (front ++ [0]) front.length (by simp)
  rw [take_left] at taken
  have count : trimmed = (text (front ++ [0])).length := by
    rw [same, ← taken, length_take, length_append]
    omega
  rw [ocFileDevicePathNameLen, length, trims, ← count, taken, same]
  refine ⟨rfl, rfl, ?_⟩
  rw [length_append]
  simp only [length_singleton]
  omega

def part (name : List UInt16) (index length : Nat) : List UInt16 := (name.drop index).take length

variable {index length : Nat}

theorem length_part (inside : index + length ≤ name.length) :
    (part name index length).length = length := by
  rw [part, length_take, length_drop]
  omega

theorem part_succ (inside : index + (length + 1) ≤ name.length) :
    part name index (length + 1) = part name index length ++ [name[index + length]] := by
  have within : length < (name.drop index).length := by
    rw [length_drop]
    omega
  rw [part, take_succ_eq_append_getElem within, getElem_drop]
  rfl

theorem part_cons {index length : Nat} (inside : index + (length + 1) ≤ name.length) :
    part name index (length + 1) = name[index] :: part name (index + 1) length := by
  rw [part, drop_eq_getElem_cons (by omega), take_succ_cons]
  rfl

theorem clipTop_done (inside : index + length ≤ name.length) :
    let clipped := if (part name index length).getLast? = some separator then
      (part name index length).dropLast else part name index length
    (if 0 < length then (charAt name (index + length - 1)).bind fun char =>
        Outcome.done (if char = separator then length - 1 else length, index)
      else Outcome.done (length, index)) = Outcome.done (clipped.length, index) ∧
      index + clipped.length ≤ name.length ∧ part name index clipped.length = clipped := by
  intro clipped
  cases length with
  | zero =>
    have none : part name index 0 = [] := take_zero
    have same : clipped = [] := by
      simp only [clipped, none]
      rfl
    rw [same]
    exact ⟨rfl, inside, none⟩
  | succ length =>
    have last := part_succ inside
    have front := length_part (by omega : index + length ≤ name.length)
    rw [if_pos (Nat.succ_pos _), show index + (length + 1) - 1 = index + length from rfl,
      charAt_done (by omega), Outcome.bind_done]
    by_cases separated : name[index + length] = separator
    · have same : clipped = part name index length := by
        simp only [clipped, last, getLast?_concat, separated, if_true, dropLast_concat]
      rw [if_pos separated, same, front]
      exact ⟨rfl, by omega, rfl⟩
    · have same : clipped = part name index (length + 1) := by
        simp only [clipped, last, getLast?_concat, Option.some.injEq, separated, if_false]
      rw [if_neg separated, same, length_part inside]
      exact ⟨rfl, inside, rfl⟩

theorem clipName_done (node : FilePath) :
    ∃ index, clipName node.pathName = .done ((clip (text node.pathName)).length, index) ∧
      index + (clip (text node.pathName)).length ≤ node.pathName.length ∧
        part node.pathName index (clip (text node.pathName)).length =
          clip (text node.pathName) := by
  obtain ⟨length, whole, below⟩ := ocFileDevicePathNameLen_done node
  generalize node.pathName = name at *
  rw [clipName, length, Outcome.bind_done]
  cases size : (text name).length with
  | zero =>
    have none : text name = [] := length_eq_zero_iff.mp size
    rw [none, if_pos rfl]
    exact ⟨0, rfl, Nat.zero_le _, rfl⟩
  | succ count =>
    have same : text name = part name 0 (count + 1) := by
      rw [← whole, size]
      rfl
    have first := @part_cons name 0 count (by omega)
    rw [if_neg (Nat.succ_ne_zero count), clipBottom, charAt_done (by omega), Outcome.bind_done,
      same, clip, first, head?_cons, tail_cons]
    by_cases separated : name[0] = separator
    · rw [if_pos separated, Outcome.bind_done]
      simp only [separated, if_true]
      exact ⟨1, clipTop_done (by omega)⟩
    · rw [if_neg separated, Outcome.bind_done, ← first]
      simp only [Option.some.injEq, separated, if_false]
      exact ⟨0, clipTop_done (by omega)⟩

end Names

section Runs

def runTexts : DevicePath → List (List UInt16)
  | .filePath node :: rest =>
    let name := clip (text node.pathName)
    if name = [] then runTexts rest else name :: runTexts rest
  | _ => []

def afterRun : DevicePath → DevicePath
  | .filePath _ :: rest => afterRun rest
  | path => path

def upper (names : List (List UInt16)) : List (List UInt16) := names.map (·.map charToUpper)

inductive At : Cursor → List (List UInt16) → DevicePath → Prop
  | behind {path : DevicePath} (run : afterRun path = path) :
      At { path, length := 0, index := 0 } [] path
  | inside {node : FilePath} {rest : DevicePath} {length index : Nat} (some : 0 < length)
      (within : index + length ≤ node.pathName.length) :
      At { path := .filePath node :: rest, length, index }
        (part node.pathName index length :: runTexts rest) (afterRun rest)

theorem clipNode_at (path : DevicePath) :
    ∃ cursor, clipNode path = .done cursor ∧ At cursor (runTexts path) (afterRun path) ∧
      cursor.path.length ≤ path.length := by
  induction path with
  | nil => exact ⟨_, rfl, .behind rfl, Nat.le_refl _⟩
  | cons node rest ih =>
    cases node with
    | other node => exact ⟨_, rfl, .behind rfl, Nat.le_refl _⟩
    | filePath node =>
      obtain ⟨index, clips, within, same⟩ := clipName_done node
      rw [clipNode, clips, Outcome.bind_done, runTexts, afterRun]
      by_cases empty : clip (text node.pathName) = []
      · obtain ⟨cursor, done, here, shorter⟩ := ih
        rw [empty, if_pos rfl]
        simp only
        exact ⟨cursor, done, here, Nat.le_succ_of_le shorter⟩
      · have some : (clip (text node.pathName)).length ≠ 0 := fun none =>
          empty (length_eq_zero_iff.mp none)
        rw [if_neg some]
        simp only [empty, if_false]
        refine ⟨_, rfl, ?_, Nat.le_refl _⟩
        have here := @At.inside node rest _ index (Nat.pos_of_ne_zero some) within
        rw [same] at here
        exact here

theorem upper_nonempty {names : List (List UInt16)} (nonempty : Nonempty names) :
    Nonempty (upper names) := by
  intro name member
  obtain ⟨raw, inner, rfl⟩ := mem_map.mp member
  intro none
  exact nonempty raw inner (map_eq_nil_iff.mp none)

theorem runTexts_nonempty (path : DevicePath) : Nonempty (runTexts path) := by
  induction path with
  | nil => exact fun _ member => nomatch member
  | cons node rest ih =>
    cases node with
    | other node => exact fun _ member => nomatch member
    | filePath node =>
      rw [runTexts]
      by_cases empty : clip (text node.pathName) = []
      · simp only [empty, if_true]
        exact ih
      · simp only [empty, if_false]
        intro name member
        cases mem_cons.mp member with
        | inl same => exact same ▸ empty
        | inr later => exact ih name later

end Runs

section Characters

variable {name1 name2 : List UInt16}

theorem charToUpper_separator (char : UInt16) : charToUpper char = separator ↔ char = separator := by
  unfold charToUpper
  split
  · next letter =>
      have low : 0x61 ≤ char.toNat := letter.1
      have high : char.toNat ≤ 0x7A := letter.2
      have code : (char - 0x20).toNat = char.toNat - 0x20 := by
        rw [UInt16.toNat_sub_of_le]
        · rfl
        · exact UInt16.le_iff_toNat_le.mpr (by simp; omega)
      constructor
      · intro same
        have number := congrArg UInt16.toNat same
        rw [code] at number
        have value : separator.toNat = 0x5C := rfl
        omega
      · intro same
        have number := congrArg UInt16.toNat same
        have value : separator.toNat = 0x5C := rfl
        omega
  · exact Iff.rfl

theorem sameChars_done {count index1 index2 : Nat} (within1 : index1 + count ≤ name1.length)
    (within2 : index2 + count ≤ name2.length) :
    sameChars name1 name2 count index1 index2 = .done (decide
      ((part name1 index1 count).map charToUpper = (part name2 index2 count).map charToUpper)) := by
  induction count generalizing index1 index2 with
  | zero => rfl
  | succ count ih =>
    rw [sameChars, charAt_done (by omega), Outcome.bind_done, charAt_done (by omega),
      Outcome.bind_done, part_cons within1, part_cons within2, map_cons, map_cons]
    split
    · next differ =>
        have other : ¬ (charToUpper name1[index1] :: (part name1 (index1 + 1) count).map charToUpper =
            charToUpper name2[index2] :: (part name2 (index2 + 1) count).map charToUpper) :=
          fun same => differ (List.cons.inj same).1
        rw [decide_eq_false other]
    · next same =>
        have heads : (charToUpper name1[index1] :: (part name1 (index1 + 1) count).map charToUpper =
            charToUpper name2[index2] :: (part name2 (index2 + 1) count).map charToUpper) ↔
              (part name1 (index1 + 1) count).map charToUpper =
                (part name2 (index2 + 1) count).map charToUpper := by
          rw [not_not.mp same, List.cons.injEq, eq_self, true_and]
        rw [ih (by omega) (by omega), decide_eq_decide.mpr heads]

end Characters

section Turns

def Answers (outcome : Outcome (Option (DevicePath × DevicePath))) (ends : DevicePath × DevicePath)
    (left right : List (List UInt16)) : Prop :=
  outcome = .done (some ends) ∧ Walk separator left right ∨
    outcome = .done none ∧ ¬ Walk separator left right

variable {left right : List (List UInt16)}

theorem Answers.symm {outcome : Outcome (Option (DevicePath × DevicePath))}
    {ends : DevicePath × DevicePath}
    (answers : Answers outcome ends left right) : Answers outcome ends right left :=
  answers.imp (fun yes => ⟨yes.1, yes.2.symm⟩) (fun no => ⟨no.1, fun walk => no.2 walk.symm⟩)

variable {names : List (List UInt16)}

theorem at_empty {cursor : Cursor} {after : DevicePath}
    (here : At cursor names after) (empty : cursor.length = 0) : names = [] ∧ cursor.path = after := by
  cases here with
  | behind _ => exact ⟨rfl, rfl⟩
  | inside some _ => exact absurd empty (Nat.ne_of_gt some)

theorem at_some {cursor : Cursor} {after : DevicePath}
    (here : At cursor names after) (some : cursor.length ≠ 0) : names ≠ [] := by
  cases here with
  | behind _ => exact absurd rfl some
  | inside _ _ => exact cons_ne_nil _ _

theorem part_split {name : List UInt16} {index front length : Nat} (inside : index + length ≤ name.length)
    (shorter : front < length) : part name index length =
      part name index front ++ name[index + front] ::
        part name (index + front + 1) (length - front - 1) := by
  have count : length = front + (length - front - 1 + 1) := by omega
  have tail := @part_cons name (index + front) (length - front - 1) (by omega)
  rw [← tail, part, part, part, ← drop_drop, ← take_add, ← count]

variable {node1 node2 : FilePath} {rest1 rest2 : DevicePath} {length1 length2 index1 index2 : Nat}

theorem shorter_turn {next : Cursor → Cursor → Outcome (Option (DevicePath × DevicePath))}
    {ends : DevicePath × DevicePath} (within1 : index1 + length1 ≤ node1.pathName.length)
    (within2 : index2 + length2 ≤ node2.pathName.length) (shorter : length1 < length2)
    (same : (part node1.pathName index1 length1).map charToUpper =
      (part node2.pathName index2 length1).map charToUpper)
    (continues : ∀ cursor1 names1 length index, At cursor1 names1 (afterRun rest1) →
      cursor1.path.length ≤ rest1.length → 0 < length → index + length ≤ node2.pathName.length →
        Answers (next cursor1 { path := .filePath node2 :: rest2, length, index }) ends (upper names1)
          (upper (part node2.pathName index length :: runTexts rest2)))
    (emptied : ∀ cursor1 cursor2, cursor1.length ≠ 0 → cursor2.length = 0 →
      next cursor1 cursor2 = .done none) :
    Answers ((clipNextNode (.filePath node1 :: rest1)).bind fun next1 =>
        if next1.length = 0 then .done none
        else
          (clipBottom node2.pathName (length2 - length1) (index2 + length1)).bind fun clipped =>
            if clipped.1 = false then .done none
            else next next1
              { path := .filePath node2 :: rest2, length := clipped.2.1, index := clipped.2.2 }) ends
      (upper (part node1.pathName index1 length1 :: runTexts rest1))
      (upper (part node2.pathName index2 length2 :: runTexts rest2)) := by
  obtain ⟨next1, clips, here, below⟩ := clipNode_at rest1
  have lengths : ((part node1.pathName index1 length1).map charToUpper).length <
      ((part node2.pathName index2 length2).map charToUpper).length := by
    rw [length_map, length_map, length_part within1, length_part within2]
    exact shorter
  have split := part_split within2 shorter
  rw [clipNextNode, clips, Outcome.bind_done, upper, upper, map_cons, map_cons, Answers,
    walk_left lengths]
  by_cases last : next1.length = 0
  · rw [if_pos last, (at_empty here last).1]
    exact Or.inr ⟨rfl, fun walk => walk.1 rfl⟩
  · rw [if_neg last, clipBottom, charAt_done (by omega), Outcome.bind_done]
    have more := at_some here last
    by_cases separated : node2.pathName[index2 + length1] = separator
    · rw [if_pos separated, Outcome.bind_done]
      simp only [Bool.true_eq_false, if_false]
      have code : charToUpper separator = separator := by decide
      rw [separated] at split
      rw [split, map_append, map_cons, ← same, code]
      by_cases none : length2 - length1 - 1 = 0
      · refine Or.inr ⟨emptied _ _ last none, ?_⟩
        rintro ⟨_, behind, some, whole, _⟩
        have tails := (List.cons.inj (append_cancel_left whole)).2
        rw [none, part, take_zero, map_nil] at tails
        exact some tails.symm
      · have later := continues next1 _ (length2 - length1 - 1) (index2 + length1 + 1) here below
          (Nat.pos_of_ne_zero none) (by omega)
        refine later.imp (fun yes => ⟨yes.1, ?_⟩) (fun no => ⟨no.1, ?_⟩)
        · refine ⟨fun empty => more (map_eq_nil_iff.mp empty), _, ?_, rfl, yes.2⟩
          intro empty
          have size := congrArg List.length empty
          rw [length_map, length_part (by omega)] at size
          exact none size
        · rintro ⟨_, behind, _, whole, walk⟩
          have tails := (List.cons.inj (append_cancel_left whole)).2
          rw [← tails] at walk
          exact no.2 walk
    · rw [if_neg separated, Outcome.bind_done]
      refine Or.inr ⟨rfl, ?_⟩
      rintro ⟨_, behind, _, whole, _⟩
      rw [split, map_append, map_cons, ← same] at whole
      have heads := (List.cons.inj (append_cancel_left whole)).1
      exact separated ((charToUpper_separator _).mp heads)

theorem walk_heads {piece other : List UInt16}
    (walk : Walk separator (piece :: left) (other :: right)) :
    piece.take (min piece.length other.length) = other.take (min piece.length other.length) := by
  cases walk with
  | both _ => rfl
  | left _ _ _ =>
    rw [length_append, Nat.min_eq_left (Nat.le_add_right _ _), take_left, take_length]
  | right _ _ _ =>
    rw [length_append, Nat.min_eq_right (Nat.le_add_right _ _), take_left, take_length]

theorem take_part {name : List UInt16} {index length front : Nat} (shorter : front ≤ length) :
    (part name index length).take front = part name index front := by
  rw [part, part, take_take, Nat.min_eq_left shorter]

theorem not_walk_of_differ (within1 : index1 + length1 ≤ node1.pathName.length)
    (within2 : index2 + length2 ≤ node2.pathName.length)
    (differ : ¬ (part node1.pathName index1 (min length1 length2)).map charToUpper =
      (part node2.pathName index2 (min length1 length2)).map charToUpper) :
    ¬ Walk separator (upper (part node1.pathName index1 length1 :: left))
      (upper (part node2.pathName index2 length2 :: right)) := by
  intro walk
  have heads := walk_heads walk
  rw [length_map, length_map, length_part within1, length_part within2, ← map_take,
    ← map_take, take_part (Nat.min_le_left _ _), take_part (Nat.min_le_right _ _)] at heads
  exact differ heads

variable {cursor1 cursor2 : Cursor} {turns : Nat}

theorem equalLoop_emptied (some : cursor1.length ≠ 0)
    (empty : cursor2.length = 0) : equalLoop (turns + 1) cursor1 cursor2 = .done none := by
  rw [equalLoop]
  simp only [some, empty, Nat.min_zero, false_and, if_false, if_true]

theorem equalLoop_emptied_left (some : cursor2.length ≠ 0)
    (empty : cursor1.length = 0) : equalLoop (turns + 1) cursor1 cursor2 = .done none := by
  rw [equalLoop]
  simp only [some, empty, Nat.zero_min, and_false, if_false, if_true]

theorem equalLoop_answers {names1 names2 : List (List UInt16)}
    {after1 after2 : DevicePath} (here1 : At cursor1 names1 after1) (here2 : At cursor2 names2 after2)
    (enough : cursor1.path.length + cursor2.path.length < turns) :
    Answers (equalLoop turns cursor1 cursor2) (after1, after2) (upper names1) (upper names2) := by
  induction turns generalizing cursor1 cursor2 names1 names2 with
  | zero => omega
  | succ turns ih =>
    cases here1 with
    | behind _ =>
      cases here2 with
      | behind _ => exact Or.inl ⟨rfl, .ends⟩
      | inside some _ =>
        refine Or.inr ⟨equalLoop_emptied_left (Nat.ne_of_gt some) rfl, fun walk => ?_⟩
        cases walk.ends_left
    | @inside node1 rest1 length1 index1 some1 within1 =>
      cases here2 with
      | behind _ =>
        refine Or.inr ⟨equalLoop_emptied (Nat.ne_of_gt some1) rfl, fun walk => ?_⟩
        cases walk.symm.ends_left
      | @inside node2 rest2 length2 index2 some2 within2 =>
        have nonzero1 : ¬ (length1 = 0 ∧ length2 = 0) := by omega
        have nonzero : ¬ min length1 length2 = 0 := by omega
        rw [equalLoop]
        simp only [nonzero1, nonzero, if_false, nameAt, Outcome.bind_done]
        rw [sameChars_done (by omega) (by omega), Outcome.bind_done]
        by_cases same : (part node1.pathName index1 (min length1 length2)).map charToUpper =
            (part node2.pathName index2 (min length1 length2)).map charToUpper
        · rw [decide_eq_true same]
          simp only [Bool.true_eq_false, if_false]
          simp only [length_cons] at enough
          obtain ⟨left, rfl⟩ : ∃ left, turns = left + 1 := ⟨turns - 1, by omega⟩
          obtain shorter | lengths | longer := Nat.lt_trichotomy length1 length2
          · rw [if_neg (Nat.ne_of_lt shorter), if_pos shorter]
            rw [Nat.min_eq_left (Nat.le_of_lt shorter)] at same ⊢
            apply shorter_turn within1 within2 shorter same
            · intro cursor1 names1 length index here below some within
              apply ih here (.inside some within)
              simp only [length_cons]
              omega
            · exact fun _ _ some empty => equalLoop_emptied some empty
          · subst lengths
            rw [Nat.min_self] at same
            obtain ⟨next1, clips1, here1, below1⟩ := clipNode_at rest1
            obtain ⟨next2, clips2, here2, below2⟩ := clipNode_at rest2
            rw [if_pos rfl, clipNextNode, clips1, Outcome.bind_done, clipNextNode, clips2,
              Outcome.bind_done]
            have later := ih here1 here2 (by omega)
            have heads := @walk_both _ separator
              ((part node1.pathName index1 length1).map charToUpper)
              ((part node2.pathName index2 length1).map charToUpper) (upper (runTexts rest1))
              (upper (runTexts rest2)) (congrArg List.length same)
            exact later.imp (fun yes => ⟨yes.1, heads.mpr ⟨same, yes.2⟩⟩)
              (fun no => ⟨no.1, fun walk => no.2 (heads.mp walk).2⟩)
          · rw [if_neg (Nat.ne_of_gt longer), if_neg (Nat.not_lt.mpr (Nat.le_of_lt longer))]
            rw [Nat.min_eq_right (Nat.le_of_lt longer)] at same ⊢
            apply Answers.symm
            apply @shorter_turn node2 node1 rest2 rest1 length2 length1 index2 index1
              (fun cursor2 cursor1 => equalLoop (left + 1) cursor1 cursor2) _
              within2 within1 longer same.symm
            · intro cursor2 names2 length index here below some within
              apply (ih (.inside some within) here _).symm
              simp only [length_cons]
              omega
            · exact fun _ _ some empty => equalLoop_emptied_left some empty
        · rw [decide_eq_false same, if_pos rfl]
          exact Or.inr ⟨rfl, not_walk_of_differ within1 within2 same⟩

theorem equalWorker_answers (path1 path2 : DevicePath) :
    Answers (equalWorker path1 path2) (afterRun path1, afterRun path2) (upper (runTexts path1))
      (upper (runTexts path2)) := by
  obtain ⟨cursor1, clips1, here1, below1⟩ := clipNode_at path1
  obtain ⟨cursor2, clips2, here2, below2⟩ := clipNode_at path2
  rw [equalWorker, clips1, Outcome.bind_done, clips2, Outcome.bind_done]
  exact equalLoop_answers here1 here2 (by omega)

end Turns

section Canonical

theorem length_afterRun (path : DevicePath) : (afterRun path).length ≤ path.length := by
  induction path with
  | nil => exact Nat.le_refl 0
  | cons node rest ih =>
    cases node with
    | filePath node => exact Nat.le_succ_of_le ih
    | other node => exact Nat.le_refl _

inductive Item where
  | path (name : List UInt16)
  | node (node : OtherNode)

def canonical (path : DevicePath) : List Item :=
  match path with
  | [] => []
  | .other node :: rest => .node node :: canonical rest
  | .filePath node :: rest =>
    .path (joined separator (upper (runTexts (.filePath node :: rest)))) ::
      canonical (afterRun rest)
termination_by path.length
decreasing_by
  · exact Nat.lt_succ_self _
  · exact Nat.lt_succ_of_le (length_afterRun rest)

def runs (path : DevicePath) : List (List (List UInt16)) :=
  match path with
  | [] => []
  | .other _ :: rest => runs rest
  | .filePath node :: rest =>
    upper (runTexts (.filePath node :: rest)) :: runs (afterRun rest)
termination_by path.length
decreasing_by
  · exact Nat.lt_succ_self _
  · exact Nat.lt_succ_of_le (length_afterRun rest)

/-- The node sequences are equal when runs of file paths are compared as one path. -/
def SamePath (path1 path2 : DevicePath) : Prop := canonical path1 = canonical path2

/-- In no two corresponding runs a node boundary of one lies right behind one of the other. -/
def RunsApart (path1 path2 : DevicePath) : Prop :=
  ∀ pair ∈ (runs path1).zip (runs path2), Apart 0 pair.1 pair.2

theorem samePath_other {node1 node2 : OtherNode} {rest1 rest2 : DevicePath} :
    SamePath (.other node1 :: rest1) (.other node2 :: rest2) ↔
      node1 = node2 ∧ SamePath rest1 rest2 := by
  rw [SamePath, canonical, canonical, List.cons.injEq, Item.node.injEq]
  rfl

theorem samePath_filePath {node1 node2 : FilePath} {rest1 rest2 : DevicePath} :
    SamePath (.filePath node1 :: rest1) (.filePath node2 :: rest2) ↔
      joined separator (upper (runTexts (.filePath node1 :: rest1))) =
          joined separator (upper (runTexts (.filePath node2 :: rest2))) ∧
        SamePath (afterRun rest1) (afterRun rest2) := by
  rw [SamePath, canonical, canonical, List.cons.injEq, Item.path.injEq]
  rfl

theorem runsApart_other {node1 node2 : OtherNode} {rest1 rest2 : DevicePath} :
    RunsApart (.other node1 :: rest1) (.other node2 :: rest2) ↔ RunsApart rest1 rest2 := by
  rw [RunsApart, runs, runs]
  rfl

theorem runsApart_filePath {node1 node2 : FilePath} {rest1 rest2 : DevicePath} :
    RunsApart (.filePath node1 :: rest1) (.filePath node2 :: rest2) ↔
      Apart 0 (upper (runTexts (.filePath node1 :: rest1)))
          (upper (runTexts (.filePath node2 :: rest2))) ∧
        RunsApart (afterRun rest1) (afterRun rest2) := by
  rw [RunsApart, runs, runs, zip_cons_cons, forall_mem_cons]
  rfl

end Canonical

section Comparison

def Decides (outcome : Outcome Bool) (property : Prop) : Prop :=
  ∃ answer, outcome = .done answer ∧ (answer = true ↔ property)

theorem Decides.no {outcome : Outcome Bool} {property : Prop} (done : outcome = .done false)
    (fails : ¬ property) : Decides outcome property :=
  ⟨false, done, iff_of_false Bool.false_ne_true fails⟩

def Item.types : Item → Nat × Nat
  | .path _ => (mediaDevicePath, mediaFilepathDp)
  | .node other => (other.type, other.subType)

theorem nodeTypes_canonical (path : DevicePath) : nodeTypes path =
    ((canonical path).head?.map Item.types).getD (endDevicePathType, endEntireDevicePathSubtype) := by
  cases path with
  | nil =>
    rw [canonical]
    rfl
  | cons node rest => cases node <;> (rw [canonical]; rfl)

theorem canonical_ne_nil (node : Node) (rest : DevicePath) : canonical (node :: rest) ≠ [] := by
  cases node <;> (rw [canonical]; exact cons_ne_nil _ _)

/-- What the comparison goes by: the same items, or those of the second path in front
of those of the first. -/
def Covers : Bool → DevicePath → DevicePath → Prop
  | false, path1, path2 => SamePath path1 path2
  | true, path1, path2 => canonical path2 <+: canonical path1

variable {check : Bool}

theorem nodeTypes_of_covers {path1 rest : DevicePath} {node : Node}
    (covers : Covers check path1 (node :: rest)) : nodeTypes path1 = nodeTypes (node :: rest) := by
  rw [nodeTypes_canonical, nodeTypes_canonical]
  cases check with
  | false =>
    have same : canonical path1 = canonical (node :: rest) := covers
    rw [same]
  | true =>
    obtain ⟨behind, whole⟩ := covers
    rw [← whole, head?_append_of_ne_nil _ (canonical_ne_nil node rest)]

theorem covers_other {node1 node2 : OtherNode} {rest1 rest2 : DevicePath} :
    Covers check (.other node1 :: rest1) (.other node2 :: rest2) ↔
      node1 = node2 ∧ Covers check rest1 rest2 := by
  cases check with
  | false => exact samePath_other
  | true =>
    rw [Covers, canonical, canonical, cons_prefix_cons, Item.node.injEq, eq_comm]
    rfl

theorem covers_filePath {node1 node2 : FilePath} {rest1 rest2 : DevicePath} :
    Covers check (.filePath node1 :: rest1) (.filePath node2 :: rest2) ↔
      joined separator (upper (runTexts (.filePath node1 :: rest1))) =
          joined separator (upper (runTexts (.filePath node2 :: rest2))) ∧
        Covers check (afterRun rest1) (afterRun rest2) := by
  cases check with
  | false => exact samePath_filePath
  | true =>
    rw [Covers, canonical, canonical, cons_prefix_cons, Item.path.injEq, eq_comm]
    rfl

theorem runsApart_nil (path : DevicePath) : RunsApart path [] := by
  intro pair member
  rw [runs.eq_def [], zip_nil_right] at member
  cases member

theorem filePath_ne_other {node1 : FilePath} {node2 : OtherNode} {rest1 rest2 : DevicePath} :
    nodeTypes (.filePath node1 :: rest1) ≠ nodeTypes (.other node2 :: rest2) := fun same =>
  node2.notFilePath (Prod.mk.inj same.symm)

variable {turns : Nat}

theorem cmpLoop_end {path : DevicePath} :
    Decides (cmpLoop check (turns + 1) path []) (Covers check path [] ∧ RunsApart path []) := by
  rw [cmpLoop, and_iff_left (runsApart_nil path)]
  cases check with
  | false =>
    refine ⟨_, rfl, ?_⟩
    rw [Bool.false_or, decide_eq_true_eq]
    cases path with
    | nil => exact iff_of_true rfl rfl
    | cons node rest =>
      have typed : (nodeTypes (node :: rest)).1 ≠ endDevicePathType := by
        cases node with
        | filePath node => exact (by decide : mediaDevicePath ≠ endDevicePathType)
        | other node => exact node.notEnd
      refine iff_of_false typed fun same => canonical_ne_nil node rest ?_
      exact (same : canonical (node :: rest) = canonical []).trans (by rw [canonical])
  | true =>
    refine ⟨true, rfl, iff_of_true rfl ?_⟩
    rw [Covers, canonical.eq_def []]
    exact nil_prefix

theorem cmpLoop_filePath {node1 node2 : FilePath} {rest1 rest2 : DevicePath}
    (continues : Decides (cmpLoop check turns (afterRun rest1) (afterRun rest2))
      (Covers check (afterRun rest1) (afterRun rest2) ∧ RunsApart (afterRun rest1) (afterRun rest2))) :
    Decides (cmpLoop check (turns + 1) (.filePath node1 :: rest1) (.filePath node2 :: rest2))
      (Covers check (.filePath node1 :: rest1) (.filePath node2 :: rest2) ∧
        RunsApart (.filePath node1 :: rest1) (.filePath node2 :: rest2)) := by
  have types : ¬ ((nodeTypes (.filePath node1 :: rest1)).1 ≠
        (nodeTypes (.filePath node2 :: rest2)).1 ∨
      (nodeTypes (.filePath node1 :: rest1)).2 ≠ (nodeTypes (.filePath node2 :: rest2)).2) := by
    rintro (differ | differ) <;> exact differ rfl
  have walked := @walk_iff _ separator _ _ 0
    (upper_nonempty (runTexts_nonempty (.filePath node1 :: rest1)))
    (upper_nonempty (runTexts_nonempty (.filePath node2 :: rest2)))
  rw [cmpLoop, if_neg types, covers_filePath, runsApart_filePath]
  cases equalWorker_answers (.filePath node1 :: rest1) (.filePath node2 :: rest2) with
  | inl yes =>
    obtain ⟨answer, done, later⟩ := continues
    have here := walked.mp yes.2
    simp only [yes.1, Outcome.bind_done]
    refine ⟨answer, done, later.trans ?_⟩
    exact ⟨fun both => ⟨⟨here.1, both.1⟩, here.2, both.2⟩, fun both => ⟨both.1.2, both.2.2⟩⟩
  | inr no =>
    simp only [no.1, Outcome.bind_done]
    exact Decides.no rfl fun both => no.2 (walked.mpr ⟨both.1.1, both.2.1⟩)

theorem cmpLoop_other {node1 node2 : OtherNode} {rest1 rest2 : DevicePath}
    (types : node1.type = node2.type ∧ node1.subType = node2.subType)
    (continues : Decides (cmpLoop check turns rest1 rest2)
      (Covers check rest1 rest2 ∧ RunsApart rest1 rest2)) :
    Decides (cmpLoop check (turns + 1) (.other node1 :: rest1) (.other node2 :: rest2))
      (Covers check (.other node1 :: rest1) (.other node2 :: rest2) ∧
        RunsApart (.other node1 :: rest1) (.other node2 :: rest2)) := by
  have alike : ¬ ((nodeTypes (.other node1 :: rest1)).1 ≠ (nodeTypes (.other node2 :: rest2)).1 ∨
      (nodeTypes (.other node1 :: rest1)).2 ≠ (nodeTypes (.other node2 :: rest2)).2) := by
    rintro (differ | differ)
    · exact differ types.1
    · exact differ types.2
  rw [cmpLoop, if_neg alike, covers_other, runsApart_other]
  by_cases bodies : node2.body = node1.body
  · have node : node1 = node2 := by
      cases node1
      cases node2
      obtain ⟨rfl, rfl⟩ := types
      cases bodies
      rfl
    subst node
    obtain ⟨answer, done, later⟩ := continues
    simp only [ne_eq, not_true_eq_false, if_false]
    exact ⟨answer, done, later.trans
      ⟨fun both => ⟨⟨trivial, both.1⟩, both.2⟩, fun both => ⟨both.1.2, both.2⟩⟩⟩
  · refine Decides.no ?_ fun both => bodies (congrArg OtherNode.body both.1.1).symm
    simp only [ne_eq, bodies, not_false_eq_true, if_true, ite_self]

variable {path1 path2 : DevicePath}

theorem cmpLoop_decides (enough : path2.length < turns) :
    Decides (cmpLoop check turns path1 path2) (Covers check path1 path2 ∧ RunsApart path1 path2) := by
  induction turns generalizing path1 path2 with
  | zero => omega
  | succ turns ih =>
    cases path2 with
    | nil => exact cmpLoop_end
    | cons node rest =>
      rw [length_cons] at enough
      by_cases types : nodeTypes path1 = nodeTypes (node :: rest)
      · match path1, node with
        | [], .filePath node =>
          exact absurd (congrArg Prod.fst types) (by decide : endDevicePathType ≠ mediaDevicePath)
        | [], .other node => exact absurd (congrArg Prod.fst types).symm node.notEnd
        | .filePath node1 :: rest1, .other node => exact absurd types filePath_ne_other
        | .other node1 :: rest1, .filePath node => exact absurd types.symm filePath_ne_other
        | .filePath node1 :: rest1, .filePath node =>
          have shorter := length_afterRun rest
          exact cmpLoop_filePath (ih (by omega))
        | .other node1 :: rest1, .other node =>
          exact cmpLoop_other (Prod.mk.inj types) (ih (by omega))
      · refine Decides.no ?_ fun both => types (nodeTypes_of_covers both.1)
        unfold cmpLoop
        exact if_pos (not_and_or.mp fun same => types (Prod.ext same.1 same.2))

theorem isDevicePathEqual_decides (path1 path2 : DevicePath) :
    Decides (isDevicePathEqual path1 path2) (SamePath path1 path2 ∧ RunsApart path1 path2) :=
  cmpLoop_decides (Nat.lt_succ_self _)

theorem isDevicePathEqual_iff (path1 path2 : DevicePath) :
    isDevicePathEqual path1 path2 = .done true ↔ SamePath path1 path2 ∧ RunsApart path1 path2 := by
  obtain ⟨answer, done, decides⟩ := isDevicePathEqual_decides path1 path2
  rw [done, Outcome.done.injEq]
  exact decides

theorem runs_nonempty (path : DevicePath) : ∀ pieces ∈ runs path, Nonempty pieces := by
  induction path using runs.induct with
  | case1 =>
    rw [runs]
    exact fun _ member => nomatch member
  | case2 node rest ih =>
    rw [runs]
    exact ih
  | case3 node rest ih =>
    rw [runs]
    intro pieces member
    cases mem_cons.mp member with
    | inl same => exact same ▸ upper_nonempty (runTexts_nonempty _)
    | inr later => exact ih pieces later

theorem runsApart_self (path : DevicePath) : RunsApart path path := by
  intro pair member
  rw [List.zip, zipWith_self] at member
  obtain ⟨pieces, inside, rfl⟩ := mem_map.mp member
  have clear := @clear_self _ pieces 0 (runs_nonempty path pieces inside)
  exact ⟨clear, clear⟩

theorem runsApart_symm (apart : RunsApart path1 path2) :
    RunsApart path2 path1 := by
  intro pair member
  have swapped : pair.swap ∈ (runs path1).zip (runs path2) := by
    rw [← zip_swap]
    exact mem_map_of_mem member
  have both := apart pair.swap swapped
  exact ⟨both.2, both.1⟩

theorem isDevicePathEqual_symm (path1 path2 : DevicePath) :
    isDevicePathEqual path2 path1 = isDevicePathEqual path1 path2 := by
  obtain ⟨answer, done, decides⟩ := isDevicePathEqual_decides path1 path2
  obtain ⟨other, otherDone, otherDecides⟩ := isDevicePathEqual_decides path2 path1
  have same : answer = other := by
    rw [Bool.eq_iff_iff, decides, otherDecides]
    exact ⟨fun both => ⟨both.1.symm, runsApart_symm both.2⟩,
      fun both => ⟨both.1.symm, runsApart_symm both.2⟩⟩
  rw [done, otherDone, same]

/-- The comparison returns without a read outside of the paths, and its answer is right
unless boundaries lie right behind each other in paths that are the same. It is reflexive
and symmetric, and transitive up to that. -/
theorem isDevicePathEqual_right (path1 path2 path3 : DevicePath) :
    (∃ answer, isDevicePathEqual path1 path2 = .done answer ∧
        ((answer = true ↔ SamePath path1 path2) ↔
          (SamePath path1 path2 → RunsApart path1 path2))) ∧
      isDevicePathEqual path1 path1 = .done true ∧
        isDevicePathEqual path2 path1 = isDevicePathEqual path1 path2 ∧
          (isDevicePathEqual path1 path2 = .done true → isDevicePathEqual path2 path3 = .done true →
            (isDevicePathEqual path1 path3 = .done true ↔ RunsApart path1 path3)) := by
  refine ⟨?_, ?_, isDevicePathEqual_symm path1 path2, ?_⟩
  · obtain ⟨answer, done, decides⟩ := isDevicePathEqual_decides path1 path2
    refine ⟨answer, done, ?_⟩
    rw [decides]
    exact ⟨fun right same => (right.mpr same).2,
      fun apart => ⟨fun both => both.1, fun same => ⟨same, apart same⟩⟩⟩
  · exact (isDevicePathEqual_iff path1 path1).mpr ⟨rfl, runsApart_self path1⟩
  · intro first second
    have same1 := ((isDevicePathEqual_iff path1 path2).mp first).1
    have same2 := ((isDevicePathEqual_iff path2 path3).mp second).1
    rw [isDevicePathEqual_iff]
    exact ⟨fun both => both.2, fun apart => ⟨same1.trans same2, apart⟩⟩

end Comparison

section Samples

def splitBefore : DevicePath :=
  [.filePath ⟨[0x61, 0], rfl, by decide⟩, .filePath ⟨[0x5C, 0x5C, 0x62, 0], rfl, by decide⟩]

def splitBehind : DevicePath :=
  [.filePath ⟨[0x61, 0x5C, 0x5C, 0], rfl, by decide⟩, .filePath ⟨[0x62, 0], rfl, by decide⟩]

def unsplit : DevicePath := [.filePath ⟨[0x61, 0x5C, 0x5C, 0x62, 0], rfl, by decide⟩]

theorem unsplit_right :
    isDevicePathEqual splitBefore unsplit = .done true ∧ RunsApart splitBefore splitBefore := by
  have first : isDevicePathEqual splitBefore unsplit = .done true := by decide
  have second : isDevicePathEqual unsplit splitBefore = .done true := by decide
  have right := isDevicePathEqual_right splitBefore unsplit splitBefore
  exact ⟨first, (right.2.2.2 first second).mp right.2.1⟩

/-- Both splits are equal to the whole name and not to each other. -/
theorem splits_not_transitive :
    isDevicePathEqual splitBefore unsplit = .done true ∧
      isDevicePathEqual unsplit splitBehind = .done true ∧
        isDevicePathEqual splitBefore splitBehind = .done false := by
  decide

end Samples

end OpenCore.DevicePathEqual
