import Mathlib.Algebra.Ring.Nat
import OpenCore.Base
import OpenCore.SlotArray

/-!
`OcListEntryAllocate`: a list keeps the pointers to its values in an array, and a map has an array
of keys beside it. Both arrays are replaced by larger ones in several steps, of which each may
find no memory.
-/

namespace OpenCore.TemplateList

open Base SlotArray List

variable {α κ : Type}

section Source

/-- `OC_MAP`, or `OC_ARRAY` where it has no keys. Entries are known by their pointers, and the
arrays have their slots up to the capacity. -/
structure OcList (α κ : Type) where
  count : Nat
  allocCount : Nat
  values : Option (List (Option α))
  keys : Option (List (Option κ))

structure Request (α κ : Type) where
  value : Option α
  key : Option κ
  newValues : Option (Nat → Option α)
  newKeys : Option (Nat → Option κ)

structure Result (α κ : Type) where
  answer : Bool
  list : OcList α κ
  freedValues : List α
  freedKeys : List κ

def newArray {β : Type} (old : Option (List (Option β))) (fresh : Nat → Option β)
    (allocCount count : Nat) (entry : β) : List (Option β) :=
  let slots := (List.range allocCount).map fresh
  (old.elim slots fun old => moveTo old slots count).set count (some entry)

def growList (list : OcList α κ) (count allocCount : Nat) (value : α) (key : Option κ)
    (request : Request α κ) : Result α κ :=
  let doubled := allocCount * 2 % u32
  match request.newValues with
  | none => ⟨false, list, [value], key.toList⟩
  | some newValues =>
    let grown := { list with
      count := (list.count + 1) % u32
      allocCount := doubled
      values := some (newArray list.values newValues doubled count value) }
    match key with
    | none => ⟨true, grown, [], []⟩
    | some key =>
      match request.newKeys with
      | none => ⟨false, list, [value], [key]⟩
      | some newKeys =>
        ⟨true, { grown with keys := some (newArray list.keys newKeys doubled count key) }, [], []⟩

def pushEntry (list : OcList α κ) (value : α) (key : Option κ) (request : Request α κ) :
    Result α κ :=
  match list.values with
  | none => growList list 0 1 value key request
  | some values =>
    if list.count < list.allocCount then
      ⟨true, { list with
        count := (list.count + 1) % u32
        values := some (values.set list.count (some value))
        keys := key.elim list.keys fun key => list.keys.map (·.set list.count (some key)) }, [], []⟩
    else growList list list.count list.allocCount value key request

def ocListEntryAllocate (list : OcList α κ) (hasKey : Bool) (request : Request α κ) : Result α κ :=
  match request.value with
  | none => ⟨false, list, [], []⟩
  | some value =>
    if hasKey then
      match request.key with
      | none => ⟨false, list, [value], []⟩
      | some key => pushEntry list value (some key) request
    else pushEntry list value none request

def emptyList : OcList α κ := ⟨0, 0, none, none⟩

end Source

section Arrays
variable {β : Type} {array : Option (List (Option β))} {capacity : Nat} {entries : List β} {entry : β}

def ArrayKeeps (array : Option (List (Option β))) (capacity : Nat) (entries : List β) : Prop :=
  match array with
  | none => entries = []
  | some slots => Keeps slots capacity entries

theorem newArray_keeps {larger : Nat} {fresh : Nat → Option β} (keeps : ArrayKeeps array capacity entries)
    (room : entries.length < larger) :
    Keeps (newArray array fresh larger entries.length entry) larger (entries ++ [entry]) := by
  have sized : ((List.range larger).map fresh).length = larger := by
    rw [length_map, length_range]
  cases array with
  | none =>
    obtain rfl : entries = [] := keeps
    have empty : Keeps ((List.range larger).map fresh) larger ([] : List β) :=
      ⟨sized, Nat.zero_le _, rfl⟩
    exact empty.push room
  | some slots =>
    have moved := Keeps.moveTo keeps sized (Nat.le_of_lt room)
    exact moved.push room

end Arrays

section Runs
variable {hasKeys : Bool} {list : OcList α κ} {values : List α} {keys : List κ}
  {request : Request α κ} {requests : List (Request α κ)}
variable {value : α} {key : Option κ}

structure Kept (hasKeys : Bool) (list : OcList α κ) (values : List α) (keys : List κ) : Prop where
  counted : list.count = values.length
  parallel : keys.length = if hasKeys then values.length else 0
  held : ArrayKeeps list.values list.allocCount values
  named : ArrayKeeps list.keys list.allocCount keys
  together : list.keys.isSome = (hasKeys && list.values.isSome)
  positive : list.values.isSome = true → 0 < list.allocCount
  bounded : list.allocCount < u32

def newKey (hasKeys : Bool) (request : Request α κ) : List κ :=
  if hasKeys then request.key.toList else []

/-- A call adds its pair behind the others, or it fails, frees what it had of the pair and leaves
the list as it was. -/
inductive Answers (hasKeys : Bool) (list : OcList α κ) (values : List α) (keys : List κ)
    (request : Request α κ) : Result α κ → List α → List κ → Prop where
  | extended {value : α} {after : OcList α κ} (given : request.value = some value)
      (keyed : hasKeys = true → request.key.isSome = true) :
      Answers hasKeys list values keys request ⟨true, after, [], []⟩ (values ++ [value])
        (keys ++ newKey hasKeys request)
  | refused {freedKeys : List κ} (given : freedKeys = [] ∨ freedKeys = newKey hasKeys request) :
      Answers hasKeys list values keys request ⟨false, list, request.value.toList, freedKeys⟩
        values keys

/-- The list keeps its entries at every moment of a run, and every call answers. -/
def Sound (hasKeys : Bool) : OcList α κ → List α → List κ → List (Request α κ) → Prop
  | list, values, keys, [] => Kept hasKeys list values keys
  | list, values, keys, request :: rest =>
    Kept hasKeys list values keys ∧ ∃ values' keys',
      Answers hasKeys list values keys request (ocListEntryAllocate list hasKeys request)
        values' keys' ∧
      Sound hasKeys (ocListEntryAllocate list hasKeys request).list values' keys' rest

def Refuses (hasKeys : Bool) (request : Request α κ) : Prop :=
  request.value = none ∨ request.newValues = none ∨
    hasKeys = true ∧ (request.key = none ∨ request.newKeys = none)

def Doubles (hasKeys : Bool) (list : OcList α κ) (request : Request α κ) : Prop :=
  list.values.isSome = true → list.allocCount ≤ list.count → u32 ≤ list.allocCount * 2 →
    Refuses hasKeys request

def Careful (hasKeys : Bool) : OcList α κ → List (Request α κ) → Prop
  | _, [] => True
  | list, request :: rest =>
    Doubles hasKeys list request ∧ Careful hasKeys (ocListEntryAllocate list hasKeys request).list rest

theorem emptyList_kept : Kept hasKeys (emptyList : OcList α κ) [] [] where
  counted := rfl
  parallel := by cases hasKeys <;> rfl
  held := rfl
  named := rfl
  together := by cases hasKeys <;> rfl
  positive := by
    intro clash
    cases clash
  bounded := (by decide : 0 < u32)

theorem Kept.no_keys (kept : Kept false list values keys) : keys = [] ∧ list.keys = none := by
  constructor
  · exact length_eq_zero_iff.mp kept.parallel
  · exact Option.isNone_iff_eq_none.mp (Option.isSome_eq_false_iff.mp kept.together)

theorem Kept.counted_push {capacity : Nat} (kept : Kept hasKeys list values keys)
    (room : values.length < capacity) (bounded : capacity < u32) :
    (list.count + 1) % u32 = (values ++ [value]).length := by
  rw [kept.counted, length_append, length_singleton, Nat.mod_eq_of_lt (by omega)]

def Grows (hasKeys : Bool) (allocCount : Nat) (request : Request α κ) : Prop :=
  allocCount * 2 < u32 ∨ request.newValues = none ∨ hasKeys = true ∧ request.newKeys = none

theorem growList_spec {allocCount : Nat}
    (kept : Kept hasKeys list values keys) (full : allocCount = max 1 values.length)
    (grows : Grows hasKeys allocCount request) (given : request.value = some value)
    (keyed : key.isSome = hasKeys) (same : newKey hasKeys request = key.toList)
    (asked : hasKeys = true → request.key.isSome = true) :
    ∃ values' keys', Answers hasKeys list values keys request
        (growList list values.length allocCount value key request) values' keys' ∧
      Kept hasKeys (growList list values.length allocCount value key request).list values' keys' := by
  have room : values.length < allocCount * 2 := by omega
  have refused : ∀ freedKeys, freedKeys = key.toList →
      Answers hasKeys list values keys request ⟨false, list, [value], freedKeys⟩ values keys := by
    rintro _ rfl
    have back : [value] = request.value.toList := by
      rw [given]
      rfl
    rw [back]
    exact .refused (.inr same.symm)
  unfold growList
  cases freshValues : request.newValues with
  | none => exact ⟨values, keys, refused _ rfl, kept⟩
  | some newValues =>
    have held : Keeps (newArray list.values newValues (allocCount * 2) values.length value)
        (allocCount * 2) (values ++ [value]) := newArray_keeps kept.held room
    cases key with
    | none =>
      obtain rfl : hasKeys = false := keyed.symm
      obtain ⟨rfl, noKeys⟩ := kept.no_keys
      have small : allocCount * 2 < u32 := by
        rcases grows with small | noValues | ⟨clash, _⟩
        · exact small
        · exact absurd (freshValues.symm.trans noValues) (Option.some_ne_none _)
        · cases clash
      simp only [Nat.mod_eq_of_lt small]
      refine ⟨values ++ [value], [], .extended given asked, ?_⟩
      exact {
        counted := kept.counted_push room small
        parallel := rfl
        held := held
        named := by
          rw [noKeys]
          rfl
        together := by
          rw [noKeys]
          rfl
        positive := fun _ => Nat.zero_lt_of_lt room
        bounded := small }
    | some key =>
      obtain rfl : hasKeys = true := keyed.symm
      have parallel : keys.length = values.length := kept.parallel
      cases freshKeys : request.newKeys with
      | none => exact ⟨values, keys, refused _ rfl, kept⟩
      | some newKeys =>
        have small : allocCount * 2 < u32 := by
          rcases grows with small | noValues | ⟨_, noKeys⟩
          · exact small
          · exact absurd (freshValues.symm.trans noValues) (Option.some_ne_none _)
          · exact absurd (freshKeys.symm.trans noKeys) (Option.some_ne_none _)
        simp only [Nat.mod_eq_of_lt small]
        have named : Keeps (newArray list.keys newKeys (allocCount * 2) values.length key)
            (allocCount * 2) (keys ++ [key]) := by
          rw [← parallel]
          exact newArray_keeps kept.named (parallel ▸ room)
        refine ⟨values ++ [value], keys ++ newKey true request, .extended given asked, ?_⟩
        rw [same]
        exact {
          counted := kept.counted_push room small
          parallel := by
            rw [length_append, length_append, parallel]
            rfl
          held := held
          named := named
          together := rfl
          positive := fun _ => Nat.zero_lt_of_lt room
          bounded := small }

theorem pushEntry_spec (kept : Kept hasKeys list values keys)
    (grows : list.values.isSome = true → list.allocCount ≤ list.count →
      Grows hasKeys list.allocCount request)
    (given : request.value = some value) (keyed : key.isSome = hasKeys)
    (same : newKey hasKeys request = key.toList)
    (asked : hasKeys = true → request.key.isSome = true) :
    ∃ values' keys', Answers hasKeys list values keys request (pushEntry list value key request)
        values' keys' ∧ Kept hasKeys (pushEntry list value key request).list values' keys' := by
  have held := kept.held
  unfold pushEntry
  cases array : list.values with
  | none =>
    rw [array] at held
    obtain rfl : values = [] := held
    exact growList_spec kept rfl (.inl (by decide)) given keyed same asked
  | some slots =>
    rw [array] at held
    have allocated : list.values.isSome = true := array ▸ rfl
    have counted := kept.counted
    have most : values.length ≤ list.allocCount := Keeps.room held
    simp only
    split
    · rename_i room
      rw [counted] at room
      have added : (list.count + 1) % u32 = (values ++ [value]).length :=
        kept.counted_push room kept.bounded
      rw [counted] at added ⊢
      have pushed : Keeps (slots.set values.length (some value)) list.allocCount (values ++ [value]) :=
        Keeps.push held room
      cases key with
      | none =>
        obtain rfl : hasKeys = false := keyed.symm
        obtain ⟨rfl, noKeys⟩ := kept.no_keys
        refine ⟨values ++ [value], [], .extended given asked, ?_⟩
        exact {
          counted := added
          parallel := rfl
          held := pushed
          named := by
            show ArrayKeeps list.keys _ _
            rw [noKeys]
            rfl
          together := by
            show list.keys.isSome = _
            rw [noKeys]
            rfl
          positive := fun _ => Nat.zero_lt_of_lt room
          bounded := kept.bounded }
      | some key =>
        obtain rfl : hasKeys = true := keyed.symm
        have parallel : keys.length = values.length := kept.parallel
        obtain ⟨keySlots, keyArray⟩ := Option.isSome_iff_exists.mp (kept.together.trans allocated)
        have named := kept.named
        rw [keyArray] at named
        have keyPushed : Keeps (keySlots.set values.length (some key)) list.allocCount
            (keys ++ [key]) := by
          rw [← parallel]
          exact Keeps.push named (parallel ▸ room)
        refine ⟨values ++ [value], keys ++ newKey true request, .extended given asked, ?_⟩
        rw [same]
        exact {
          counted := added
          parallel := by
            rw [length_append, length_append, parallel]
            rfl
          held := pushed
          named := by
            show ArrayKeeps (list.keys.map _) _ _
            rw [keyArray]
            exact keyPushed
          together := by
            show (list.keys.map _).isSome = true
            rw [keyArray]
            rfl
          positive := fun _ => Nat.zero_lt_of_lt room
          bounded := kept.bounded }
    · rename_i full
      have positive := kept.positive allocated
      rw [counted]
      exact growList_spec kept (by omega) (grows allocated (Nat.le_of_not_lt full)) given keyed same asked

theorem Doubles.grows (doubles : Doubles hasKeys list request)
    (given : request.value = some value) (asked : hasKeys = true → request.key.isSome = true)
    (allocated : list.values.isSome = true) (full : list.allocCount ≤ list.count) :
    Grows hasKeys list.allocCount request := by
  by_cases small : list.allocCount * 2 < u32
  · exact .inl small
  · rcases doubles allocated full (Nat.le_of_not_lt small) with noValue | noValues | ⟨keyed, noKey⟩
    · exact absurd (given.symm.trans noValue) (Option.some_ne_none _)
    · exact .inr (.inl noValues)
    · rcases noKey with noKey | noKeys
      · have some := asked keyed
        rw [noKey] at some
        cases some
      · exact .inr (.inr ⟨keyed, noKeys⟩)

theorem ocListEntryAllocate_spec (kept : Kept hasKeys list values keys)
    (doubles : Doubles hasKeys list request) :
    ∃ values' keys', Answers hasKeys list values keys request (ocListEntryAllocate list hasKeys request)
        values' keys' ∧
      Kept hasKeys (ocListEntryAllocate list hasKeys request).list values' keys' := by
  unfold ocListEntryAllocate
  cases given : request.value with
  | none =>
    have back : [] = request.value.toList := by
      rw [given]
      rfl
    refine ⟨values, keys, ?_, kept⟩
    simp only [back]
    exact .refused (.inl rfl)
  | some value =>
    cases hasKeys with
    | false =>
      exact pushEntry_spec kept (doubles.grows given fun clash => by cases clash) given rfl
        rfl fun clash => by cases clash
    | true =>
      cases keyed : request.key with
      | none =>
        have back : [value] = request.value.toList := by
          rw [given]
          rfl
        refine ⟨values, keys, ?_, kept⟩
        simp only [if_true, back]
        exact .refused (.inl rfl)
      | some key =>
        have asked : true = true → request.key.isSome = true := fun _ => by rw [keyed]; rfl
        have same : newKey true request = (some key).toList := by
          rw [← keyed]
          rfl
        simp only [if_true]
        exact pushEntry_spec kept (doubles.grows given asked) given rfl same asked

theorem ocListEntryAllocate_full (given : request.value = some value)
    (asked : hasKeys = true → request.key.isSome = true)
    (chosen : key = if hasKeys then request.key else none) (allocated : list.values.isSome = true)
    (full : list.allocCount ≤ list.count) :
    ocListEntryAllocate list hasKeys request =
      growList list list.count list.allocCount value key request := by
  obtain ⟨slots, array⟩ := Option.isSome_iff_exists.mp allocated
  have pushed : ∀ key, pushEntry list value key request =
      growList list list.count list.allocCount value key request := by
    intro key
    rw [pushEntry, array]
    exact if_neg (Nat.not_lt_of_le full)
  rw [chosen, ← pushed, ocListEntryAllocate, given]
  cases hasKeys with
  | false => rfl
  | true =>
    obtain ⟨key, keyed⟩ := Option.isSome_iff_exists.mp (asked rfl)
    simp only [if_true, keyed]

structure Grown (list : OcList α κ) (allocCount : Nat) (result : Result α κ) : Prop where
  answer : result.answer = true
  count : result.list.count = (list.count + 1) % u32
  allocCount : result.list.allocCount = allocCount * 2 % u32
  allocated : result.list.values.isSome = true

theorem growList_grown {count allocCount : Nat}
    (freshValues : request.newValues ≠ none) (freshKeys : key ≠ none → request.newKeys ≠ none) :
    Grown list allocCount (growList list count allocCount value key request) := by
  obtain ⟨newValues, givenValues⟩ := Option.ne_none_iff_exists'.mp freshValues
  unfold growList
  rw [givenValues]
  cases key with
  | none => exact ⟨rfl, rfl, rfl, rfl⟩
  | some key =>
    obtain ⟨newKeys, givenKeys⟩ := Option.ne_none_iff_exists'.mp (freshKeys (Option.some_ne_none key))
    rw [givenKeys]
    exact ⟨rfl, rfl, rfl, rfl⟩

theorem ocListEntryAllocate_grown (supplied : ¬ Refuses hasKeys request)
    (allocated : list.values.isSome = true) (full : list.allocCount ≤ list.count) :
    Grown list list.allocCount (ocListEntryAllocate list hasKeys request) := by
  unfold Refuses at supplied
  push Not at supplied
  obtain ⟨given, freshValues, freshKeys⟩ := supplied
  obtain ⟨value, given⟩ := Option.ne_none_iff_exists'.mp given
  have asked : hasKeys = true → request.key.isSome = true := fun keyed =>
    Option.isSome_iff_ne_none.mpr (freshKeys keyed).1
  rw [ocListEntryAllocate_full given asked rfl allocated full]
  refine growList_grown freshValues fun keyed => ?_
  cases hasKeys with
  | false => exact absurd rfl keyed
  | true => exact (freshKeys rfl).2

theorem not_kept_of_wrap (kept : Kept hasKeys list values keys)
    (wraps : ¬ Doubles hasKeys list request) {values' : List α} {keys' : List κ}
    (answers : Answers hasKeys list values keys request (ocListEntryAllocate list hasKeys request)
      values' keys') :
    ¬ Kept hasKeys (ocListEntryAllocate list hasKeys request).list values' keys' := by
  unfold Doubles at wraps
  push Not at wraps
  obtain ⟨allocated, full, large, supplied⟩ := wraps
  have grown := ocListEntryAllocate_grown supplied allocated full
  generalize ocListEntryAllocate list hasKeys request = result at answers grown ⊢
  intro after
  have held := after.held
  obtain ⟨slots, array⟩ := Option.isSome_iff_exists.mp grown.allocated
  rw [array, grown.allocCount] at held
  have room : values'.length ≤ list.allocCount * 2 % u32 := Keeps.room held
  have bounded := kept.bounded
  have counted := kept.counted
  cases answers with
  | extended _ _ =>
    rw [length_append, length_singleton, Nat.mod_eq_sub_mod large,
      Nat.mod_eq_of_lt (by omega)] at room
    omega
  | refused _ => cases grown.answer

theorem sound_kept : Sound hasKeys list values keys requests → Kept hasKeys list values keys := by
  intro sound
  cases requests with
  | nil => exact sound
  | cons request rest => exact sound.1

theorem sound_iff (kept : Kept hasKeys list values keys) :
    Sound hasKeys list values keys requests ↔ Careful hasKeys list requests := by
  induction requests generalizing list values keys with
  | nil => exact iff_of_true kept trivial
  | cons request rest ih =>
    constructor
    · rintro ⟨_, values', keys', answers, sound⟩
      have doubles : Doubles hasKeys list request := by
        by_contra wraps
        exact not_kept_of_wrap kept wraps answers (sound_kept sound)
      exact ⟨doubles, (ih (sound_kept sound)).mp sound⟩
    · rintro ⟨doubles, careful⟩
      obtain ⟨values', keys', answers, after⟩ := ocListEntryAllocate_spec kept doubles
      exact ⟨kept, values', keys', answers, (ih after).mpr careful⟩

/-- A run from a constructed list keeps its entries exactly if the room never has to be doubled
beyond 32 bits. -/
theorem ocListEntryAllocate_sound (hasKeys : Bool) (requests : List (Request α κ)) :
    Sound hasKeys emptyList [] [] requests ↔ Careful hasKeys emptyList requests :=
  sound_iff emptyList_kept

end Runs

section Limit

def supplied : Request Nat Nat := ⟨some 0, some 0, some fun _ => none, some fun _ => none⟩

def filled : Nat → OcList Nat Nat
  | 0 => emptyList
  | count + 1 => (ocListEntryAllocate (filled count) true supplied).list

theorem supplied_supplied : ¬ Refuses true supplied := by
  rintro (noValue | noValues | ⟨_, noKey | noKeys⟩)
  · cases noValue
  · cases noValues
  · cases noKey
  · cases noKeys

structure Filled (count : Nat) (list : OcList Nat Nat) : Prop where
  counted : list.count = count
  allocated : list.values.isSome = true
  power : ∃ exponent ≤ 31, list.allocCount = 2 ^ exponent ∧ count ≤ 2 ^ exponent

theorem pow_lt_u32 {exponent : Nat} (small : exponent ≤ 31) : 2 ^ exponent * 2 ≤ u32 := by
  rw [← pow_succ]
  exact Nat.pow_le_pow_right (by decide) (Nat.succ_le_succ small)

theorem filled_filled {count : Nat} (bounded : count < 2 ^ 31) : Filled (count + 1) (filled (count + 1)) := by
  induction count with
  | zero => exact ⟨rfl, rfl, 1, by decide, rfl, by decide⟩
  | succ count ih =>
    obtain ⟨counted, allocated, exponent, small, capacity, room⟩ := ih (Nat.lt_of_succ_lt bounded)
    have limit := pow_lt_u32 small
    rw [filled]
    generalize filled (count + 1) = list at counted allocated capacity
    have next : (count + 1 + 1) % u32 = count + 1 + 1 := by
      rw [Nat.mod_eq_of_lt]
      exact Nat.lt_of_le_of_lt bounded (by decide)
    by_cases below : count + 1 < 2 ^ exponent
    · obtain ⟨slots, array⟩ := Option.isSome_iff_exists.mp allocated
      have pushed : ocListEntryAllocate list true supplied =
          pushEntry list 0 (some 0) supplied := rfl
      rw [pushed, pushEntry, array]
      simp only [counted, capacity, if_pos below, next]
      exact ⟨rfl, rfl, exponent, small, rfl, below⟩
    · have full : list.allocCount ≤ list.count := by
        rw [capacity, counted]
        exact Nat.le_of_not_lt below
      have grown := ocListEntryAllocate_grown supplied_supplied allocated full
      have fewer : exponent < 31 := by
        by_contra most
        have last : exponent = 31 := by omega
        rw [last] at below
        exact below bounded
      have doubled := pow_lt_u32 fewer
      refine ⟨?_, grown.allocated, exponent + 1, fewer, ?_, ?_⟩
      · rw [grown.count, counted, next]
      · rw [grown.allocCount, capacity, pow_succ, Nat.mod_eq_of_lt]
        rw [pow_succ] at doubled
        omega
      · rw [pow_succ]
        omega

theorem doubles_of_careful {count rest : Nat}
    (careful : Careful true (filled count) (replicate (rest + 1) supplied)) :
    Doubles true (filled (count + rest)) supplied := by
  induction rest generalizing count with
  | zero => exact careful.1
  | succ rest ih =>
    rw [← Nat.succ_add_eq_add_succ]
    exact ih careful.2

/-- With 2^31 entries the room wraps to nothing, and one more entry is written behind it. -/
theorem ocListEntryAllocate_wraps :
    ¬ Sound true emptyList [] [] (replicate (2 ^ 31 + 1) supplied) := by
  intro sound
  have careful := (sound_iff emptyList_kept).mp sound
  have doubles : Doubles true (filled (0 + 2 ^ 31)) supplied := doubles_of_careful careful
  obtain ⟨count, limit⟩ : ∃ count, 2 ^ 31 = count + 1 := ⟨2 ^ 31 - 1, by decide⟩
  rw [zero_add, limit] at doubles
  obtain ⟨counted, allocated, exponent, small, capacity, room⟩ :=
    filled_filled (Nat.lt_of_lt_of_eq (Nat.lt_succ_self count) limit.symm)
  have most : 2 ^ exponent ≤ count + 1 := limit ▸ Nat.pow_le_pow_right (by decide) small
  have large : u32 ≤ 2 ^ exponent * 2 := Nat.mul_le_mul_right 2 (Nat.le_trans (Nat.le_of_eq limit) room)
  have full : (filled (count + 1)).allocCount ≤ (filled (count + 1)).count := by
    rw [capacity, counted]
    exact most
  rw [← capacity] at large
  exact supplied_supplied (doubles allocated full large)

end Limit

end OpenCore.TemplateList
