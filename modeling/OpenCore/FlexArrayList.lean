import OpenCore.FlexArray

/-!
A flex array as a list of items. While every addition gets its memory, and no item
is inserted where the items come to fill the memory but for one place, the array is
the list; the other calls are where `Count` is ahead of the items, and where the
copy for an insertion goes past `Items`.
-/

namespace OpenCore.FlexArrayList

open Base ByteBuffer ByteSlices Cells FlexArray List

def WellFormed (array : OcFlexArray) : Prop :=
  match array.items with
  | none => array.count = 0
  | some memory =>
    2 ≤ array.allocatedCount ∧ array.allocatedCount * array.itemSize < u64 ∧
      memory.length = array.allocatedCount * array.itemSize ∧
      array.count ≤ array.allocatedCount

def itemsOf (array : OcFlexArray) : List Bytes :=
  match array.items with
  | none => []
  | some memory => cells memory array.itemSize array.count

/-- An addition gets the memory it asks for, or there is none yet and so much is
asked for that the size does not fit: this is the one failure before `Count` changes. -/
def AddCareful (allocation : Allocation) (array : OcFlexArray) : Prop :=
  match array.items with
  | none => u64 ≤ initialNumItems * array.itemSize ∨ allocation.isSome
  | some _ =>
    array.count < array.allocatedCount ∨
      allocation.isSome ∧ array.allocatedCount * array.itemSize * 2 < u64

def InsertCareful (allocation : Allocation) (insertIndex : Nat) (array : OcFlexArray) : Prop :=
  AddCareful allocation array ∧
    (insertIndex = array.count ∨ array.count + 1 ≠ array.allocatedCount)

section Steps

variable {array after : OcFlexArray} {allocation : Allocation} {memory : Bytes}
variable {index : Nat}

/-- What an addition that succeeds makes of an array: one more item, whose memory
holds anything. -/
structure Extended (array after : OcFlexArray) (memory : Bytes) : Prop where
  items : after.items = some memory
  count : after.count = array.count + 1
  itemSize : after.itemSize = array.itemSize
  freeItem : after.freeItem = array.freeItem
  wellFormed : WellFormed after
  kept : cells memory array.itemSize array.count = itemsOf array
  room : array.items.isSome → array.count + 1 ≠ array.allocatedCount →
    array.count + 2 ≤ after.allocatedCount

theorem length_poolBytes (contents : Nat → UInt8) (size : Nat) :
    (poolBytes contents size).length = size := by simp [poolBytes]

theorem add_first (wellFormed : WellFormed array) (careful : AddCareful allocation array)
    (none : array.items = none) :
    internalFlexArrayAddItem allocation array =
        ({ array with allocatedCount := initialNumItems }, Option.none) ∨
      ∃ after memory, internalFlexArrayAddItem allocation array = (after, some (array.count, memory)) ∧
        Extended array after memory := by
  have empty : array.count = 0 := by simpa [WellFormed, none] using wellFormed
  simp only [internalFlexArrayAddItem, none]
  cases fits : baseOverflowMul u64 initialNumItems array.itemSize with
  | none => exact Or.inl rfl
  | some newSize =>
    obtain ⟨rfl, small⟩ := baseOverflowMul_eq_some fits
    simp only [AddCareful, none] at careful
    obtain ⟨contents, rfl⟩ : ∃ contents, allocation = some contents :=
      Option.isSome_iff_exists.mp (careful.resolve_left (not_le.mpr small))
    refine Or.inr ⟨_, _, by rw [empty], ?_⟩
    constructor
    · rfl
    · simp [empty]
    · rfl
    · rfl
    · exact ⟨by simp [initialNumItems], small, length_poolBytes _ _, by simp [initialNumItems]⟩
    · simp [empty, cells, itemsOf, none]
    · simp [none]

theorem add_next (wellFormed : WellFormed array) (careful : AddCareful allocation array)
    (some : array.items = some memory) :
    ∃ after memory, internalFlexArrayAddItem allocation array =
        (after, Option.some (array.count, memory)) ∧ Extended array after memory := by
  simp only [WellFormed, some] at wellFormed
  obtain ⟨two, bound, length, filled⟩ := wellFormed
  simp only [AddCareful, some] at careful
  simp only [internalFlexArrayAddItem, some, Nat.mod_eq_of_lt bound]
  by_cases full : array.allocatedCount < array.count + 1
  · obtain ⟨allocated, small⟩ := careful.resolve_left (by omega)
    obtain ⟨contents, rfl⟩ := Option.isSome_iff_exists.mp allocated
    have fits : baseOverflowMul u64 (array.allocatedCount * array.itemSize) 2 =
        Option.some (array.allocatedCount * array.itemSize * 2) := if_pos small
    have whole : memory.take (array.allocatedCount * array.itemSize) = memory := by
      rw [← length, take_length]
    have double : array.allocatedCount * 2 * array.itemSize =
        array.allocatedCount * array.itemSize * 2 := Nat.mul_right_comm _ _ _
    rw [if_pos full, fits, whole]
    refine ⟨_, _, rfl, ?_⟩
    constructor
    · rfl
    · rfl
    · rfl
    · rfl
    · refine ⟨?_, ?_, ?_, ?_⟩
      · simp only
        omega
      · simp only [double]
        exact small
      · simp only [double, length_append, length_poolBytes, length]
        omega
      · simp only
        omega
    · rw [itemsOf, some]
      apply cells_congr
      intro index inside
      apply cell_append _ inside
      rw [length]
      exact Nat.mul_le_mul_right _ filled
    · intro _ _
      simp only
      omega
  · rw [if_neg full]
    refine ⟨_, _, rfl, ?_⟩
    constructor
    · rfl
    · rfl
    · rfl
    · rfl
    · exact ⟨two, bound, length, by simp only; omega⟩
    · rw [itemsOf, some]
    · intro _ different
      simp only
      omega

def zeros (size : Nat) : Bytes := replicate size 0

structure Leaves (after : OcFlexArray) (itemSize : Nat) (freeItem : Option FreeItem)
    (items : List Bytes) (writes : List Write) : Prop where
  wellFormed : WellFormed after
  itemSize : after.itemSize = itemSize
  freeItem : after.freeItem = freeItem
  shows : itemsOf after = items
  inside : ∀ write ∈ writes, write.1 + write.2 ≤ after.allocatedCount * after.itemSize

theorem wellFormed_items {other : Bytes} (wellFormed : WellFormed after)
    (items : after.items = some memory) (length : other.length = memory.length) :
    WellFormed { after with items := some other } := by
  simp only [WellFormed, items] at wellFormed ⊢
  rw [length]
  exact wellFormed

theorem itemsOf_length (wellFormed : WellFormed array) : array.count = (itemsOf array).length := by
  unfold WellFormed at wellFormed
  unfold itemsOf
  split
  · next none => rw [none] at wellFormed; exact wellFormed
  · rw [length_cells]

theorem zero_last (extended : Extended array after memory) :
    Leaves (zeroItem after array.count memory) array.itemSize array.freeItem
      (itemsOf array ++ [zeros array.itemSize]) [(array.count * after.itemSize, after.itemSize)] := by
  have wellFormed := extended.wellFormed
  simp only [WellFormed, extended.items] at wellFormed
  obtain ⟨_, _, length, filled⟩ := wellFormed
  rw [extended.count] at filled
  have room : (array.count + 1) * array.itemSize ≤ memory.length := by
    rw [length, extended.itemSize]
    exact Nat.mul_le_mul_right _ filled
  have within := cell_inside (Nat.lt_succ_self array.count) room
  constructor
  · exact wellFormed_items extended.wellFormed extended.items (overlay_length _ _ _)
  · exact extended.itemSize
  · exact extended.freeItem
  · simp only [itemsOf, zeroItem, extended.itemSize, extended.count]
    rw [cells_succ, cell_write_same length_replicate within]
    congr 1
    rw [← itemsOf, ← extended.kept]
    apply cells_congr
    intro index inside
    exact cell_write_other length_replicate (Nat.ne_of_lt inside)
  · intro write member
    rw [mem_singleton.mp member]
    simp only [zeroItem]
    rw [← length, extended.itemSize]
    exact within

theorem zero_moved (extended : Extended array after memory) (inside : index < array.count)
    (room : array.count + 2 ≤ after.allocatedCount) :
    Leaves (zeroItem after index (moved memory after.itemSize index (after.count - index)))
      array.itemSize array.freeItem ((itemsOf array).insertIdx index (zeros array.itemSize))
      [((index + 1) * after.itemSize, (after.count - index) * after.itemSize),
        (index * after.itemSize, after.itemSize)] := by
  have wellFormed := extended.wellFormed
  simp only [WellFormed, extended.items] at wellFormed
  obtain ⟨_, _, length, _⟩ := wellFormed
  have fits : (array.count + 2) * array.itemSize ≤ memory.length := by
    rw [length, extended.itemSize]
    exact Nat.mul_le_mul_right _ room
  have places : index + 1 + (array.count + 1 - index) = array.count + 2 := by omega
  have old : (itemsOf array).length = array.count := by rw [← extended.kept, length_cells]
  have within := cell_inside (lt_of_lt_of_le inside (Nat.le_add_right _ 2)) fits
  constructor
  · apply wellFormed_items extended.wellFormed extended.items
    rw [overlay_length, length_moved]
  · exact extended.itemSize
  · exact extended.freeItem
  · simp only [itemsOf, zeroItem, extended.itemSize, extended.count]
    apply ext_getElem?
    intro other
    rw [getElem?_insertIdx, ← itemsOf, old, ← extended.kept, getElem?_cells, getElem?_cells,
      getElem?_cells]
    rcases Nat.lt_trichotomy other index with before | rfl | behind
    · rw [if_pos (by omega), if_pos before, if_pos (by omega),
        cell_write_other length_replicate (Nat.ne_of_lt before),
        cell_moved_before (le_of_lt before)]
    · rw [if_pos (by omega), if_neg (lt_irrefl _), if_pos rfl, if_pos (le_of_lt inside),
        cell_write_same length_replicate (by rw [length_moved]; exact within), zeros]
    · rw [if_neg (Nat.lt_asymm behind), if_neg (ne_of_gt behind)]
      by_cases last : other < array.count + 1
      · rw [if_pos last, if_pos (by omega), cell_write_other length_replicate (ne_of_gt behind),
          cell_moved_behind behind (by omega) (by rw [places]; exact fits)]
      · rw [if_neg last, if_neg (by omega)]
  · intro write member
    simp only [zeroItem]
    rw [← length]
    rcases mem_cons.mp member with rfl | member
    · simp only [extended.itemSize, extended.count, ← add_mul, places]
      exact fits
    · rw [mem_singleton.mp member, extended.itemSize]
      exact within

theorem add_leaves (wellFormed : WellFormed array) (careful : AddCareful allocation array) :
    let added := ocFlexArrayAddItem allocation array
    (added = ({ array with allocatedCount := initialNumItems }, none, []) ∧ array.items = none) ∨
      (added.2.1 = some array.count ∧ Leaves added.1 array.itemSize array.freeItem
        (itemsOf array ++ [zeros array.itemSize]) added.2.2) := by
  have ends : ∀ after memory, internalFlexArrayAddItem allocation array =
      (after, some (array.count, memory)) → Extended array after memory →
        (ocFlexArrayAddItem allocation array).2.1 = some array.count ∧
          Leaves (ocFlexArrayAddItem allocation array).1 array.itemSize array.freeItem
            (itemsOf array ++ [zeros array.itemSize]) (ocFlexArrayAddItem allocation array).2.2 := by
    intro after memory added extended
    simp only [ocFlexArrayAddItem, added]
    exact ⟨trivial, zero_last extended⟩
  cases held : array.items with
  | none =>
    rcases add_first wellFormed careful held with failed | ⟨after, memory, added, extended⟩
    · exact Or.inl ⟨by simp only [ocFlexArrayAddItem, failed, held], rfl⟩
    · exact Or.inr (ends after memory added extended)
  | some memory =>
    obtain ⟨after, memory, added, extended⟩ := add_next wellFormed careful held
    exact Or.inr (ends after memory added extended)

theorem insert_leaves (wellFormed : WellFormed array)
    (careful : InsertCareful allocation index array) (inside : index < array.count) :
    let inserted := ocFlexArrayInsertItem allocation index array
    inserted.2.1 = some index ∧ Leaves inserted.1 array.itemSize array.freeItem
      ((itemsOf array).insertIdx index (zeros array.itemSize)) inserted.2.2 := by
  have other : index ≠ array.count := Nat.ne_of_lt inside
  cases held : array.items with
  | none =>
    rw [WellFormed, held] at wellFormed
    have empty : array.count = 0 := wellFormed
    omega
  | some memory =>
    obtain ⟨after, memory, added, extended⟩ := add_next wellFormed careful.1 held
    have room := extended.room (by simp [held]) (careful.2.resolve_left other)
    simp only [ocFlexArrayInsertItem, other, if_false, added]
    exact ⟨trivial, zero_moved extended inside room⟩

theorem write_leaves {data : Bytes} (wellFormed : WellFormed array)
    (inside : index < array.count) (length : data.length = array.itemSize) :
    let written := writeItem index data array
    Leaves written.1 array.itemSize array.freeItem ((itemsOf array).set index data) written.2 := by
  cases held : array.items with
  | none =>
    rw [WellFormed, held] at wellFormed
    have empty : array.count = 0 := wellFormed
    omega
  | some memory =>
    have kept := wellFormed
    simp only [WellFormed, held] at kept
    obtain ⟨_, _, whole, filled⟩ := kept
    have room : array.count * array.itemSize ≤ memory.length := by
      rw [whole]
      exact Nat.mul_le_mul_right _ filled
    simp only [writeItem, held]
    constructor
    · exact wellFormed_items wellFormed held (overlay_length _ _ _)
    · rfl
    · rfl
    · rw [itemsOf, itemsOf, held]
      exact cells_write length inside room
    · intro write member
      rw [mem_singleton.mp member, length, ← whole]
      exact cell_inside inside room

theorem discard_leaves (free : Bool) (wellFormed : WellFormed array) (some : 0 < array.count) :
    let discarded := ocFlexArrayDiscardItem free array
    Leaves discarded.1 array.itemSize array.freeItem (itemsOf array).dropLast discarded.2 := by
  cases held : array.items with
  | none =>
    rw [WellFormed, held] at wellFormed
    have empty : array.count = 0 := wellFormed
    omega
  | some memory =>
    have kept := wellFormed
    simp only [WellFormed, held] at kept
    obtain ⟨two, bound, whole, filled⟩ := kept
    have room : array.count * array.itemSize ≤ memory.length := by
      rw [whole]
      exact Nat.mul_le_mul_right _ filled
    have last : array.count - 1 < array.count := by omega
    have count : array.count = array.count - 1 + 1 := by omega
    have dropped : (itemsOf array).dropLast = cells memory array.itemSize (array.count - 1) := by
      rw [itemsOf, held]
      simp only
      rw [count, cells_succ, dropLast_concat, Nat.add_sub_cancel]
    have shorter : WellFormed { array with count := array.count - 1 } := by
      simp only [WellFormed, held]
      exact ⟨two, bound, whole, by omega⟩
    have only : Leaves { array with count := array.count - 1 } array.itemSize array.freeItem
        (itemsOf array).dropLast [] := by
      refine ⟨shorter, rfl, rfl, ?_, fun _ member => absurd member not_mem_nil⟩
      rw [dropped, itemsOf, held]
    cases frees : array.freeItem with
    | none => simpa [ocFlexArrayDiscardItem, held, frees] using only
    | some freeItem =>
      cases free with
      | false => simpa [ocFlexArrayDiscardItem, held, frees] using only
      | true =>
        have length : (freeItem.leaves (cell memory array.itemSize (array.count - 1))).length =
            array.itemSize := by
          rw [freeItem.length]
          exact length_slice (cell_inside last room)
        simp only [ocFlexArrayDiscardItem, held, frees, if_true]
        constructor
        · exact wellFormed_items shorter held (overlay_length _ _ _)
        · rfl
        · rfl
        · rw [dropped]
          simp only [itemsOf]
          apply cells_congr
          intro index inside
          exact cell_write_other length (Nat.ne_of_lt inside)
        · intro write member
          rw [mem_singleton.mp member, length, ← whole]
          exact cell_inside last room

end Steps

section Runs

inductive Call where
  | add (allocation : Allocation)
  | insert (allocation : Allocation) (insertIndex : Nat)
  | discard (freeItem : Bool)
  | write (index : Nat) (data : Bytes)

def step (array : OcFlexArray) : Call → Answer
  | .add allocation => ocFlexArrayAddItem allocation array
  | .insert allocation insertIndex => ocFlexArrayInsertItem allocation insertIndex array
  | .discard freeItem =>
    let discarded := ocFlexArrayDiscardItem freeItem array
    (discarded.1, none, discarded.2)
  | .write index data =>
    let written := writeItem index data array
    (written.1, none, written.2)

/-- The indices that the assertions at the entry of the calls ask for; an item is
written whole. -/
def Valid (array : OcFlexArray) : Call → Prop
  | .add _ => True
  | .insert _ insertIndex => insertIndex ≤ array.count
  | .discard _ => 0 < array.count
  | .write index data => index < array.count ∧ data.length = array.itemSize

def listAfter (itemSize : Nat) (items : List Bytes) (returned : Option Nat) : Call → List Bytes
  | .add _ => if returned.isSome then items ++ [zeros itemSize] else items
  | .insert _ insertIndex =>
    if returned.isSome then items.insertIdx insertIndex (zeros itemSize) else items
  | .discard _ => items.dropLast
  | .write index data => items.set index data

def placeOf (items : List Bytes) : Call → Nat
  | .insert _ insertIndex => insertIndex
  | _ => items.length

/-- The array shows the items, and every call changes them as it says, without a
write behind the allocated ones; a call that fails leaves them and `Count`. -/
def BehavesAsList : OcFlexArray → List Bytes → List Call → Prop
  | array, items, [] =>
    array.count ≤ array.allocatedCount ∧ array.count = items.length ∧ itemsOf array = items
  | array, items, call :: rest =>
    let after := step array call
    array.count ≤ array.allocatedCount ∧ array.count = items.length ∧ itemsOf array = items ∧
      (∀ place ∈ after.2.1, place = placeOf items call) ∧
      (∀ write ∈ after.2.2, write.1 + write.2 ≤ after.1.allocatedCount * after.1.itemSize) ∧
      BehavesAsList after.1 (listAfter array.itemSize items after.2.1 call) rest

def Careful (array : OcFlexArray) : Call → Prop
  | .add allocation => AddCareful allocation array
  | .insert allocation insertIndex => InsertCareful allocation insertIndex array
  | _ => True

def CarefulRun : OcFlexArray → List Call → Prop
  | _, [] => True
  | array, call :: rest =>
    Valid array call ∧ Careful array call ∧ CarefulRun (step array call).1 rest

theorem count_le {array : OcFlexArray} (wellFormed : WellFormed array) :
    array.count ≤ array.allocatedCount := by
  unfold WellFormed at wellFormed
  split at wellFormed
  · omega
  · exact wellFormed.2.2.2

theorem Leaves.run {array after : OcFlexArray} {items : List Bytes} {writes : List Write}
    (leaves : Leaves after array.itemSize array.freeItem items writes) :
    WellFormed after ∧ itemsOf after = items ∧
      ∀ write ∈ writes, write.1 + write.2 ≤ after.allocatedCount * after.itemSize :=
  ⟨leaves.wellFormed, leaves.shows, leaves.inside⟩

theorem step_shows {array : OcFlexArray} {call : Call} (wellFormed : WellFormed array)
    (valid : Valid array call) (careful : Careful array call) :
    let after := step array call
    (WellFormed after.1 ∧
      itemsOf after.1 = listAfter array.itemSize (itemsOf array) after.2.1 call ∧
      ∀ write ∈ after.2.2, write.1 + write.2 ≤ after.1.allocatedCount * after.1.itemSize) ∧
      ∀ place ∈ after.2.1, place = placeOf (itemsOf array) call := by
  have length := itemsOf_length wellFormed
  have adding : ∀ allocation, AddCareful allocation array →
      let added := ocFlexArrayAddItem allocation array
      (WellFormed added.1 ∧
        itemsOf added.1 = (if added.2.1.isSome then itemsOf array ++ [zeros array.itemSize]
          else itemsOf array) ∧
        ∀ write ∈ added.2.2, write.1 + write.2 ≤ added.1.allocatedCount * added.1.itemSize) ∧
        ∀ place ∈ added.2.1, place = (itemsOf array).length := by
    intro allocation careful
    rcases add_leaves wellFormed careful with ⟨failed, none⟩ | ⟨returned, leaves⟩
    · have empty : WellFormed { array with allocatedCount := initialNumItems } := by
        rw [WellFormed, none] at wellFormed ⊢
        exact wellFormed
      rw [failed]
      refine ⟨⟨empty, by simp [itemsOf, none], fun _ member => absurd member not_mem_nil⟩, ?_⟩
      intro place returned
      cases returned
    · simp only [returned, Option.isSome_some, if_true, Option.mem_some_iff]
      exact ⟨leaves.run, fun place same => same ▸ length⟩
  cases call with
  | add allocation => exact adding allocation careful
  | insert allocation index =>
    by_cases last : index = array.count
    · have appended : (itemsOf array).insertIdx index (zeros array.itemSize) =
          itemsOf array ++ [zeros array.itemSize] := by
        rw [last, length, insertIdx_length_self]
      simp only [step, ocFlexArrayInsertItem, last, if_true, listAfter, placeOf]
      rw [← last, appended, last, length]
      exact adding allocation careful.1
    · have inside : index < array.count := lt_of_le_of_ne valid last
      obtain ⟨returned, leaves⟩ := insert_leaves wellFormed careful inside
      simp only [step, returned, listAfter, Option.isSome_some, if_true, placeOf,
        Option.mem_some_iff]
      exact ⟨leaves.run, fun place same => same.symm⟩
  | discard freeItem =>
    refine ⟨(discard_leaves freeItem wellFormed valid).run, fun place returned => ?_⟩
    cases returned
  | write index data =>
    refine ⟨(write_leaves wellFormed valid.1 valid.2).run, fun place returned => ?_⟩
    cases returned

theorem careful_run_behaves (calls : List Call) (array : OcFlexArray)
    (wellFormed : WellFormed array) (careful : CarefulRun array calls) :
    BehavesAsList array (itemsOf array) calls := by
  induction calls generalizing array with
  | nil => exact ⟨count_le wellFormed, itemsOf_length wellFormed, rfl⟩
  | cons call rest ih =>
    obtain ⟨valid, here, later⟩ := careful
    obtain ⟨⟨kept, shows, inside⟩, places⟩ := step_shows wellFormed valid here
    refine ⟨count_le wellFormed, itemsOf_length wellFormed, rfl, places, inside, ?_⟩
    rw [← shows]
    exact ih _ kept later

/-- From the initialised array on, careful calls behave as those on a list. -/
theorem flexArray_behaves_as_list (itemSize : Nat) (freeItem : Option FreeItem)
    (calls : List Call) (careful : CarefulRun (ocFlexArrayInit itemSize freeItem) calls) :
    BehavesAsList (ocFlexArrayInit itemSize freeItem) [] calls :=
  careful_run_behaves calls _ rfl careful

instance (allocation : Allocation) (array : OcFlexArray) : Decidable (AddCareful allocation array) := by
  unfold AddCareful
  split <;> infer_instance

instance (allocation : Allocation) (insertIndex : Nat) (array : OcFlexArray) :
    Decidable (InsertCareful allocation insertIndex array) := by
  unfold InsertCareful
  infer_instance

instance (array : OcFlexArray) (call : Call) : Decidable (Valid array call) := by
  cases call <;> unfold Valid <;> infer_instance

instance (array : OcFlexArray) (call : Call) : Decidable (Careful array call) := by
  cases call <;> unfold Careful <;> infer_instance

instance decidableCarefulRun : ∀ (array : OcFlexArray) (calls : List Call),
    Decidable (CarefulRun array calls)
  | _, [] => .isTrue trivial
  | array, call :: rest =>
    have : Decidable (CarefulRun (step array call).1 rest) := decidableCarefulRun _ rest
    inferInstanceAs (Decidable (_ ∧ _ ∧ _))

instance decidableBehavesAsList : ∀ (array : OcFlexArray) (items : List Bytes) (calls : List Call),
    Decidable (BehavesAsList array items calls)
  | _, _, [] => inferInstanceAs (Decidable (_ ∧ _ ∧ _))
  | array, items, call :: rest =>
    have := decidableBehavesAsList (step array call).1
      (listAfter array.itemSize items (step array call).2.1 call) rest
    inferInstanceAs (Decidable (_ ∧ _ ∧ _ ∧ _ ∧ _ ∧ _))

def pool : Allocation := some fun index => UInt8.ofNat index

def sampleCalls : List Call :=
  [.add pool, .write 0 [1, 2], .insert pool 0, .insert none 1, .write 1 [3, 4], .discard true]

theorem flexArray_behaves_as_list_sample :
    BehavesAsList (ocFlexArrayInit 2 none) [] sampleCalls :=
  flexArray_behaves_as_list 2 none sampleCalls (by decide)

/-- Seven items and one more at the front: the copy writes a ninth item into memory for
eight. And an array without memory for its first item counts one. -/
theorem insertion_writes_past_items :
    ¬ BehavesAsList (ocFlexArrayInit 1 none) []
        (replicate 7 (.add pool) ++ [.insert none 0]) ∧
      ¬ BehavesAsList (ocFlexArrayInit 1 none) [] [.add none] := by
  decide

end Runs

end OpenCore.FlexArrayList
