import OpenCore.SmbiosSession
import Mathlib.Data.List.Chain

/-!
The readers of an SMBIOS table. A pointer is what stands from it on in the allocation, and a
reader that leaves the allocation has no result. Over structures that were written one behind
the other each finds what was written, but for what lies behind an end-of-table structure.
-/

namespace OpenCore.SmbiosReader

open Base ByteBuffer SmbiosTable SmbiosSession List

section Source

/-- The loop of `SmbiosGetStructureLength`: how far its walker goes for the two zeroes. -/
def terminatorFrom : Bytes → Nat → Option (Option Nat)
  | [], size => if size < smbiosStructureTerminatorSize then some none else none
  | byte :: rest, size =>
    if size < smbiosStructureTerminatorSize then some none
    else
      match rest.head? with
      | none => none
      | some next =>
        if byte = 0 ∧ next = 0 then some (some 0)
        else (terminatorFrom rest (size - 1)).map (Option.map (· + 1))

def smbiosGetStructureLength (smbiosTable : Bytes) (smbiosTableSize : Nat) : Option Nat :=
  match smbiosTable[1]? with
  | none => none
  | some length =>
    if length.toNat > smbiosTableSize then some 0
    else
      (terminatorFrom (smbiosTable.drop length.toNat) (smbiosTableSize - length.toNat)).map
        fun
          | none => 0
          | some walked => length.toNat + walked + smbiosStructureTerminatorSize

/-- The loop of `SmbiosGetStructureOfType`, with a bound on its turns: the place of the
structure. -/
def ofType (type : UInt8) (index : Nat) : Nat → Bytes → Nat → Nat → Nat → Option (Option Nat)
  | 0, _, _, _, _ => none
  | turns + 1, smbiosTable, smbiosTableSize, place, smbiosTypeIndex =>
    if smbiosTableSize < 4 then some none
    else
      match smbiosGetStructureLength smbiosTable smbiosTableSize, smbiosTable.head? with
      | some length, some this =>
        if length = 0 then some none
        else if smbiosTypeIndex = index ∧ this = type then some (some place)
        else if this = smbiosTypeEndOfTable then some none
        else if this = type then
          if (smbiosTypeIndex + 1) % u16 = 0 then some none
          else ofType type index turns (smbiosTable.drop length) (smbiosTableSize - length)
            (place + length) ((smbiosTypeIndex + 1) % u16)
        else ofType type index turns (smbiosTable.drop length) (smbiosTableSize - length)
          (place + length) smbiosTypeIndex
      | _, _ => none

def smbiosGetStructureOfType (smbiosTable : Bytes) (smbiosTableSize : Nat) (type : UInt8)
    (index : Nat) : Option (Option Nat) :=
  ofType type index (smbiosTableSize + 1) smbiosTable smbiosTableSize 0 1

def countOf (type : UInt8) : Nat → Bytes → Nat → Nat → Option Nat
  | 0, _, _, _ => none
  | turns + 1, smbiosTable, smbiosTableSize, count =>
    if smbiosTableSize < 4 then some count
    else
      match smbiosGetStructureLength smbiosTable smbiosTableSize, smbiosTable.head? with
      | some length, some this =>
        let more := if this = type then (count + 1) % u16 else count
        if length = 0 then some count
        else if this = type ∧ more = 0 then some more
        else if this = smbiosTypeEndOfTable then some more
        else countOf type turns (smbiosTable.drop length) (smbiosTableSize - length) more
      | _, _ => none

def smbiosGetStructureCount (smbiosTable : Bytes) (smbiosTableSize : Nat) (type : UInt8) :
    Option Nat :=
  countOf type (smbiosTableSize + 1) smbiosTable smbiosTableSize 0

def behindZero : Bytes → Option Bytes
  | [] => none
  | byte :: rest => if byte = 0 then some rest else behindZero rest

/-- The loop of `SmbiosGetString` over the strings in front of the one asked for. -/
def stringFrom : Nat → Bytes → Option (Option Bytes)
  | 0, walker => some (some walker)
  | strings + 1, walker =>
    match behindZero walker with
    | none | some [] => none
    | some (byte :: rest) => if byte = 0 then some none else stringFrom strings (byte :: rest)

def smbiosGetString (smbiosTable : Bytes) (string : Nat) : Option (Option Bytes) :=
  if string = 0 then some none
  else
    match smbiosTable[1]? with
    | none => none
    | some length => stringFrom (string - 1) (smbiosTable.drop length.toNat)

/-- The places that `SmbiosGetStructureLength` goes through, with a bound on the turns: the
bytes of each structure, or no result where it finds none. -/
def walk : Nat → Bytes → Nat → Option (List Bytes)
  | 0, _, _ => none
  | turns + 1, smbiosTable, smbiosTableSize =>
    if smbiosTableSize = 0 then some []
    else
      match smbiosGetStructureLength smbiosTable smbiosTableSize with
      | none | some 0 => none
      | some (length + 1) =>
        (walk turns (smbiosTable.drop (length + 1)) (smbiosTableSize - (length + 1))).map
          (smbiosTable.take (length + 1) :: ·)

end Source

section Length

variable {stored : List (Nat × Bytes)} {size : Nat}

theorem terminatorFrom_first {front : Bytes} (more : Bytes)
    (apart : (front ++ [0]).IsChain fun byte next => ¬(byte = 0 ∧ next = 0))
    (enough : front.length + 2 ≤ size) :
    terminatorFrom (front ++ 0 :: 0 :: more) size = some (some front.length) := by
  induction front generalizing size with
  | nil =>
    have long : ¬size < smbiosStructureTerminatorSize := Nat.not_lt_of_le enough
    simp [terminatorFrom, long]
  | cons byte rest ih =>
    rw [length_cons] at enough
    have long : ¬size < smbiosStructureTerminatorSize := Nat.not_lt_of_le (by
      simp only [smbiosStructureTerminatorSize]
      omega)
    obtain ⟨first, others⟩ := isChain_cons.mp apart
    have next := @ih (size - 1) others (by omega)
    have some_next : ∃ next, (rest ++ 0 :: 0 :: more).head? = some next ∧
        ¬(byte = 0 ∧ next = 0) := by
      cases rest with
      | nil => exact ⟨0, rfl, first 0 rfl⟩
      | cons second rest => exact ⟨second, rfl, first second rfl⟩
    obtain ⟨second, head, differ⟩ := some_next
    rw [cons_append, terminatorFrom, if_neg long, head]
    dsimp only
    rw [if_neg differ, next]
    rfl

theorem string_apart {string : Bytes} (nonzero : 0 ∉ string) :
    (string ++ [0]).IsChain fun byte next => ¬(byte = 0 ∧ next = 0) := by
  induction string with
  | nil => exact isChain_singleton 0
  | cons byte rest ih =>
    rw [mem_cons, not_or] at nonzero
    exact isChain_cons.mpr ⟨fun _ _ both => nonzero.1 both.1.symm, ih nonzero.2⟩

theorem text_head (strings : ∀ entry ∈ stored, entry.2 ≠ [] ∧ 0 ∉ entry.2) :
    ∀ byte ∈ (stored.flatMap fun entry => entry.2 ++ [0]).head?, byte ≠ 0 := by
  cases stored with
  | nil => nofun
  | cons entry others =>
    obtain ⟨written, nonzero⟩ := strings entry (mem_cons_self ..)
    obtain ⟨first, rest, split⟩ := exists_cons_of_ne_nil written
    intro byte head same
    rw [flatMap_cons, split] at head
    cases head
    exact nonzero (split ▸ same ▸ mem_cons_self ..)

theorem text_apart (strings : ∀ entry ∈ stored, entry.2 ≠ [] ∧ 0 ∉ entry.2) :
    (stored.flatMap fun entry => entry.2 ++ [0]).IsChain
      fun byte next => ¬(byte = 0 ∧ next = 0) := by
  induction stored with
  | nil => exact List.IsChain.nil
  | cons entry others ih =>
    have first := strings entry (mem_cons_self ..)
    have behind : ∀ entry ∈ others, entry.2 ≠ [] ∧ 0 ∉ entry.2 :=
      fun each member => strings each (mem_cons_of_mem _ member)
    rw [flatMap_cons]
    refine (string_apart first.2).append (ih behind) ?_
    intro _ _ byte head both
    exact text_head behind byte head both.2

theorem text_ended (draft : Draft) (some_stored : draft.stored ≠ []) :
    ∃ front, draft.text = front ++ [0] := by
  obtain ⟨others, entry, stored⟩ := (eq_nil_or_concat draft.stored).resolve_left some_stored
  refine ⟨(others.flatMap fun entry => entry.2 ++ [0]) ++ entry.2, ?_⟩
  rw [Draft.text, stored, concat_eq_append, flatMap_append, flatMap_singleton, append_assoc]

variable {draft : Draft}

section

variable (sound : draft.Sound)
include sound

theorem formatted_length (more : Bytes) :
    (draft.formatted ++ more)[1]? = some (UInt8.ofNat draft.formatted.length) := by
  have header := sound.header
  rw [getElem?_append_left (by omega), sound.length]

theorem toNat_length :
    (UInt8.ofNat draft.formatted.length).toNat = draft.formatted.length :=
  UInt8.toNat_ofNat_of_lt' sound.small

theorem bytes_terminated :
    ∃ front, (front ++ [0]).IsChain (fun byte next => ¬(byte = 0 ∧ next = 0)) ∧
      draft.bytes = draft.formatted ++ (front ++ [0, 0]) := by
  by_cases empty : draft.stored = []
  · refine ⟨[], isChain_singleton 0, ?_⟩
    simp [Draft.bytes, Draft.text, empty]
  · obtain ⟨front, ended⟩ := text_ended draft empty
    have apart := text_apart sound.strings
    refine ⟨front, ended ▸ apart, ?_⟩
    rw [Draft.bytes, if_neg empty, ended]
    simp

theorem smbiosGetStructureLength_bytes (more : Bytes) (enough : draft.bytes.length ≤ size) :
    smbiosGetStructureLength (draft.bytes ++ more) size = some draft.bytes.length := by
  obtain ⟨front, apart, split⟩ := bytes_terminated sound
  have total : draft.bytes.length = draft.formatted.length + (front.length + 2) := by
    rw [split, length_append, length_append]
    rfl
  have found := terminatorFrom_first more apart
    (show front.length + 2 ≤ size - draft.formatted.length by omega)
  have behind : draft.formatted ++ (front ++ [0, 0]) ++ more =
      draft.formatted ++ (front ++ 0 :: 0 :: more) := by simp
  rw [total, split, behind, smbiosGetStructureLength, formatted_length sound]
  dsimp only
  rw [toNat_length sound, if_neg (by omega), drop_left, found]
  rfl

theorem bytes_long : 6 ≤ draft.bytes.length := by
  obtain ⟨front, _, split⟩ := bytes_terminated sound
  have header := sound.header
  rw [split, length_append, length_append, length_cons, length_singleton]
  omega

theorem bytes_type (more : Bytes) :
    (draft.bytes ++ more).head? = some draft.type := by
  have header := sound.header
  rcases formatted : draft.formatted with _ | ⟨type, rest⟩
  · rw [formatted] at header
    exact absurd header (by decide)
  · simp [Draft.bytes, Draft.type, formatted]

end

end Length

section Walk

variable {draft : Draft}

structure Front (draft : Draft) (rest : List Draft) (more : Bytes) (turns : Nat) : Prop where
  length : smbiosGetStructureLength
    ((draft :: rest).flatMap Draft.bytes ++ more) ((draft :: rest).flatMap Draft.bytes).length =
      some draft.bytes.length
  type : ((draft :: rest).flatMap Draft.bytes ++ more).head? = some draft.type
  long : 6 ≤ draft.bytes.length
  size : ((draft :: rest).flatMap Draft.bytes).length =
    draft.bytes.length + (rest.flatMap Draft.bytes).length
  drop : ((draft :: rest).flatMap Draft.bytes ++ more).drop draft.bytes.length =
    rest.flatMap Draft.bytes ++ more
  turns : (rest.flatMap Draft.bytes).length < turns

theorem front_of {rest : List Draft} {turns : Nat} (sound : ∀ each ∈ draft :: rest, each.Sound)
    (more : Bytes) (enough : ((draft :: rest).flatMap Draft.bytes).length < turns + 1) :
    Front draft rest more turns := by
  have this : draft.Sound := sound draft (mem_cons_self ..)
  have long := bytes_long this
  have split : (draft :: rest).flatMap Draft.bytes ++ more =
      draft.bytes ++ (rest.flatMap Draft.bytes ++ more) := by
    rw [flatMap_cons, append_assoc]
  have size : ((draft :: rest).flatMap Draft.bytes).length =
      draft.bytes.length + (rest.flatMap Draft.bytes).length := by
    rw [flatMap_cons, length_append]
  exact {
    length := by
      rw [split, size]
      exact smbiosGetStructureLength_bytes this _ (Nat.le_add_right _ _)
    type := by rw [split, bytes_type this]
    long := long
    size := size
    drop := by rw [split, drop_left]
    turns := by omega }

theorem walk_bytes (drafts : List Draft) (more : Bytes) (turns : Nat)
    (sound : ∀ draft ∈ drafts, draft.Sound) (enough : (drafts.flatMap Draft.bytes).length < turns) :
    walk turns (drafts.flatMap Draft.bytes ++ more) (drafts.flatMap Draft.bytes).length =
      some (drafts.map Draft.bytes) := by
  induction drafts generalizing turns with
  | nil =>
    cases turns with
    | zero => exact absurd enough (Nat.not_lt_zero _)
    | succ turns => rfl
  | cons draft rest ih =>
    cases turns with
    | zero => exact absurd enough (Nat.not_lt_zero _)
    | succ turns =>
      have front := front_of sound more enough
      have others := ih turns (fun each member => sound each (mem_cons_of_mem _ member))
        front.turns
      have long := front.long
      have first : ((draft :: rest).flatMap Draft.bytes ++ more).take draft.bytes.length =
          draft.bytes := by
        rw [flatMap_cons, append_assoc, take_left]
      obtain ⟨length, same⟩ : ∃ length, draft.bytes.length = length + 1 :=
        ⟨draft.bytes.length - 1, by omega⟩
      rw [walk, if_neg (by rw [front.size]; omega), front.length, same]
      dsimp only
      rw [← same, front.drop, front.size, Nat.add_sub_cancel_left, others, first]
      rfl

def upToEnd : List Draft → List Draft
  | [] => []
  | draft :: rest =>
    if draft.type = smbiosTypeEndOfTable then [draft] else draft :: upToEnd rest

theorem countOf_bytes (type : UInt8) (drafts : List Draft) (more : Bytes) (turns count : Nat)
    (sound : ∀ draft ∈ drafts, draft.Sound)
    (enough : (drafts.flatMap Draft.bytes).length < turns)
    (few : count + drafts.length < u16) :
    countOf type turns (drafts.flatMap Draft.bytes ++ more) (drafts.flatMap Draft.bytes).length
        count = some (count + (upToEnd drafts).countP fun draft => draft.type = type) := by
  induction drafts generalizing turns count with
  | nil =>
    cases turns with
    | zero => exact absurd enough (Nat.not_lt_zero _)
    | succ turns => rfl
  | cons draft rest ih =>
    cases turns with
    | zero => exact absurd enough (Nat.not_lt_zero _)
    | succ turns =>
      have front := front_of sound more enough
      have others (count : Nat) (few : count + rest.length < u16) := ih turns count
        (fun each member => sound each (mem_cons_of_mem _ member)) front.turns few
      have long := front.long
      have size := front.size
      rw [length_cons] at few
      have small : count + 1 < u16 := by omega
      rw [countOf, if_neg (by omega), front.length, front.type]
      dsimp only
      rw [if_neg (by omega), front.drop, front.size, Nat.add_sub_cancel_left,
        Nat.mod_eq_of_lt small, if_neg (by
          rintro ⟨same, zero⟩
          rw [if_pos same] at zero
          exact Nat.succ_ne_zero _ zero), upToEnd]
      by_cases same : draft.type = type
      · simp only [if_pos same]
        rw [others (count + 1) (by omega)]
        split
        · simp [same]
        · simp [same]
          omega
      · simp only [if_neg same]
        rw [others count (by omega)]
        split
        · simp [same]
        · simp [same]

def locate (type : UInt8) (index : Nat) : List Draft → Nat → Nat → Option Nat
  | [], _, _ => none
  | draft :: rest, place, typeIndex =>
    if typeIndex = index ∧ draft.type = type then some place
    else if draft.type = smbiosTypeEndOfTable then none
    else locate type index rest (place + draft.bytes.length)
      (if draft.type = type then typeIndex + 1 else typeIndex)

theorem ofType_bytes (type : UInt8) (index : Nat) (drafts : List Draft) (more : Bytes)
    (turns place typeIndex : Nat) (sound : ∀ draft ∈ drafts, draft.Sound)
    (enough : (drafts.flatMap Draft.bytes).length < turns) (few : typeIndex + drafts.length < u16) :
    ofType type index turns (drafts.flatMap Draft.bytes ++ more)
        (drafts.flatMap Draft.bytes).length place typeIndex =
      some (locate type index drafts place typeIndex) := by
  induction drafts generalizing turns place typeIndex with
  | nil =>
    cases turns with
    | zero => exact absurd enough (Nat.not_lt_zero _)
    | succ turns => rfl
  | cons draft rest ih =>
    cases turns with
    | zero => exact absurd enough (Nat.not_lt_zero _)
    | succ turns =>
      have front := front_of sound more enough
      have others (place typeIndex : Nat) (few : typeIndex + rest.length < u16) :=
        ih turns place typeIndex
          (fun each member => sound each (mem_cons_of_mem _ member)) front.turns few
      have long := front.long
      have size := front.size
      rw [length_cons] at few
      have small : typeIndex + 1 < u16 := by omega
      rw [ofType, if_neg (by omega), front.length, front.type]
      dsimp only
      rw [if_neg (by omega), front.drop, front.size, Nat.add_sub_cancel_left,
        Nat.mod_eq_of_lt small, if_neg (Nat.succ_ne_zero typeIndex), others _ _ (by omega),
        others _ _ (by omega), locate]
      split_ifs <;> rfl

theorem exists_split_cons {α : Type} {first : α} {rest : List α} {P : List α → α → Prop} :
    (∃ before this after, first :: rest = before ++ this :: after ∧ P before this) ↔
      P [] first ∨ ∃ before this after, rest = before ++ this :: after ∧ P (first :: before) this := by
  constructor
  · rintro ⟨_ | ⟨front, before⟩, this, after, split, holds⟩
    · obtain ⟨rfl, rfl⟩ := List.cons.inj split
      exact .inl holds
    · obtain ⟨rfl, rfl⟩ := List.cons.inj split
      exact .inr ⟨before, this, after, rfl, holds⟩
  · rintro (holds | ⟨before, this, after, rfl, holds⟩)
    · exact ⟨[], first, rest, rfl, holds⟩
    · exact ⟨first :: before, this, after, rfl, holds⟩

theorem locate_eq_some {type : UInt8} {index : Nat} {drafts : List Draft}
    {place typeIndex found : Nat} :
    locate type index drafts place typeIndex = some found ↔
      ∃ before draft after, upToEnd drafts = before ++ draft :: after ∧ draft.type = type ∧
        typeIndex + before.countP (fun draft => draft.type = type) = index ∧
        found = place + (before.flatMap Draft.bytes).length := by
  induction drafts generalizing place typeIndex with
  | nil => simp [locate, upToEnd]
  | cons draft rest ih =>
    rw [locate, upToEnd]
    by_cases here : typeIndex = index ∧ draft.type = type
    · -- A later structure of the type has a greater index.
      have later (before : List Draft) :
          ¬typeIndex + (draft :: before).countP (fun draft => draft.type = type) = index := by
        rw [countP_cons_of_pos (by simpa using here.2)]
        omega
      rw [if_pos here]
      split <;>
        simp only [exists_split_cons, later, false_and, and_false, exists_false, or_false] <;>
        simp [here, eq_comm]
    · rw [if_neg here]
      split
      next ended =>
        simp only [exists_split_cons, nil_eq, append_eq_nil_iff, reduceCtorEq, and_false,
          false_and, exists_false, or_false, false_iff]
        rintro ⟨same, index, _⟩
        exact here ⟨index, same⟩
      next =>
        have first : ¬(draft.type = type ∧ typeIndex + ([] : List Draft).countP
            (fun draft => draft.type = type) = index ∧ found = place +
              (([] : List Draft).flatMap Draft.bytes).length) := fun both => here ⟨both.2.1, both.1⟩
        rw [ih, exists_split_cons, or_iff_right first]
        have counted (before : List Draft) :
            (if draft.type = type then typeIndex + 1 else typeIndex) +
                before.countP (fun draft => draft.type = type) =
              typeIndex + (draft :: before).countP fun draft => draft.type = type := by
          rw [countP_cons]
          split
          next same => simp [same, add_assoc, add_comm 1]
          next other => simp [other]
        simp only [counted, flatMap_cons, length_append, add_assoc]

end Walk

section Strings

variable {draft : Draft}

theorem behindZero_string {string : Bytes} (nonzero : 0 ∉ string) (rest : Bytes) :
    behindZero (string ++ 0 :: rest) = some rest := by
  induction string with
  | nil => rfl
  | cons byte tail ih =>
    rw [mem_cons, not_or] at nonzero
    rw [cons_append, behindZero, if_neg (Ne.symm nonzero.1), ih nonzero.2]

theorem stringFrom_text {stored : List (Nat × Bytes)} (more : Bytes) {strings : Nat}
    (sound : ∀ entry ∈ stored, entry.2 ≠ [] ∧ 0 ∉ entry.2) (within : strings < stored.length) :
    stringFrom strings ((stored.flatMap fun entry => entry.2 ++ [0]) ++ more) =
      some (some (((stored.drop strings).flatMap fun entry => entry.2 ++ [0]) ++ more)) := by
  induction strings generalizing stored with
  | zero => rfl
  | succ strings ih =>
    rcases stored with _ | ⟨entry, others⟩
    · exact absurd within (Nat.not_lt_zero _)
    · have behind : ∀ entry ∈ others, entry.2 ≠ [] ∧ 0 ∉ entry.2 :=
        fun each member => sound each (mem_cons_of_mem _ member)
      have next := ih behind (Nat.lt_of_succ_lt_succ within)
      have skipped := behindZero_string (sound entry (mem_cons_self ..)).2
        ((others.flatMap fun entry => entry.2 ++ [0]) ++ more)
      have front : ((entry :: others).flatMap fun entry => entry.2 ++ [0]) ++ more =
          entry.2 ++ 0 :: ((others.flatMap fun entry => entry.2 ++ [0]) ++ more) := by simp
      obtain ⟨first, rest, split⟩ :
          ∃ first rest, (others.flatMap fun entry => entry.2 ++ [0]) = first :: rest := by
        apply exists_cons_of_ne_nil
        intro empty
        have few := flatMap_eq_nil_iff.mp empty
        rcases others with _ | ⟨second, others⟩
        · exact absurd within (by simp)
        · exact absurd (few second (mem_cons_self ..)) (by simp)
      have nonzero : first ≠ 0 := text_head behind first (by rw [split]; rfl)
      rw [front, stringFrom, skipped, drop_succ_cons, ← next, split, cons_append]
      dsimp only
      rw [if_neg nonzero]

theorem smbiosGetString_stored (sound : draft.Sound) (more : Bytes) {number : Nat}
    {string : Bytes} (member : (number, string) ∈ draft.stored) :
    ∃ rest, smbiosGetString (draft.formatted ++ (draft.text ++ more)) number =
      some (some (string ++ 0 :: rest)) := by
  obtain ⟨place, within, entry⟩ := mem_iff_getElem.mp member
  have numbers := congrArg (fun numbers : List Nat => numbers[place]?) sound.numbered
  have number_eq : number = place + 1 := by
    simpa [within, entry] using numbers
  have found := stringFrom_text more sound.strings within
  rw [drop_eq_getElem_cons within, entry] at found
  rw [smbiosGetString, if_neg (by omega), formatted_length sound]
  dsimp only
  rw [toNat_length sound, drop_left, number_eq, Nat.add_sub_cancel]
  exact ⟨_, by simpa [Draft.text] using found⟩

end Strings

end OpenCore.SmbiosReader
