import Mathlib.Data.List.GetD
import OpenCore.AddressSpace

/-!
Bytes that stand at an address of a memory, and what copies and fills keep of them. A run
of bytes is put together from the runs it consists of, and its fields are those that loads
give.
-/

namespace OpenCore.PlacedBytes

open AddressSpace List

def Holds (memory : Memory) (address : Nat) (bytes : List UInt8) : Prop :=
  ∀ index, index < bytes.length → memory (address + index) = bytes.getD index 0

def zeroMem (memory : Memory) (address length : Nat) : Memory := fun place =>
  if address ≤ place ∧ place < address + length then 0 else memory place

def Zeroed (memory : Memory) (address length : Nat) : Prop :=
  ∀ place, address ≤ place → place < address + length → memory place = 0

def field (bytes : List UInt8) (width offset : Nat) : Nat :=
  load (fun index => bytes.getD index 0) width offset

def bytesOf (width value : Nat) : List UInt8 :=
  (List.range width).map fun index => UInt8.ofNat (value / 256 ^ index)

def writeBytes (memory : Memory) (address : Nat) (bytes : List UInt8) : Memory := fun place =>
  if address ≤ place ∧ place < address + bytes.length then bytes.getD (place - address) 0
  else memory place

variable {memory other : Memory} {address destination source length : Nat} {bytes : List UInt8}

theorem holds_nil : Holds memory address [] := fun _ bound => absurd bound (Nat.not_lt_zero _)

theorem holds_append {front rest : List UInt8} :
    Holds memory address (front ++ rest) ↔
      Holds memory address front ∧ Holds memory (address + front.length) rest := by
  constructor
  · intro whole
    constructor
    · intro index bound
      rw [whole index (by rw [length_append]; omega), getD_append _ _ _ _ bound]
    · intro index bound
      rw [Nat.add_assoc, whole _ (by rw [length_append]; omega),
        getD_append_right _ _ _ _ (Nat.le_add_right _ _), Nat.add_sub_cancel_left]
  · rintro ⟨first, second⟩ index bound
    rw [length_append] at bound
    by_cases inside : index < front.length
    · rw [getD_append _ _ _ _ inside]
      exact first index inside
    · rw [getD_append_right _ _ _ _ (Nat.le_of_not_lt inside),
        ← second (index - front.length) (by omega)]
      congr 1
      omega

theorem Holds.congr (holds : Holds memory address bytes)
    (same : ∀ place, address ≤ place → place < address + bytes.length → other place = memory place) :
    Holds other address bytes := by
  intro index bound
  rw [same _ (Nat.le_add_right _ _) (Nat.add_lt_add_left bound _)]
  exact holds index bound

theorem Holds.copied (holds : Holds memory source bytes) (covered : bytes.length ≤ length) :
    Holds (copyMem memory destination source length) destination bytes := by
  intro index bound
  rw [copyMem, if_pos ⟨Nat.le_add_right _ _, by omega⟩, Nat.add_sub_cancel_left]
  exact holds index bound

section

variable (holds : Holds memory address bytes)
  (apart : address + bytes.length ≤ destination ∨ destination + length ≤ address)
include holds apart

theorem Holds.copy_frame :
    Holds (copyMem memory destination source length) address bytes := by
  refine holds.congr fun place lower upper => ?_
  rw [copyMem, if_neg (by omega)]

theorem Holds.zero_frame :
    Holds (zeroMem memory destination length) address bytes := by
  refine holds.congr fun place lower upper => ?_
  rw [zeroMem, if_neg (by omega)]

end

/-- Where bytes are copied down and their old place is filled with zeros, they are kept if
those that are in both places are zeros. -/
theorem moved_zeroed_iff (holds : Holds memory source bytes) (down : destination ≤ source) :
    Holds (zeroMem (copyMem memory destination source bytes.length) source bytes.length)
        destination bytes ↔ ∀ byte ∈ bytes.drop (source - destination), byte = 0 := by
  have outcome : ∀ index, index < bytes.length →
      zeroMem (copyMem memory destination source bytes.length) source bytes.length
        (destination + index) = if source - destination ≤ index then 0 else bytes.getD index 0 := by
    intro index bound
    rw [zeroMem]
    by_cases beyond : source - destination ≤ index
    · rw [if_pos beyond, if_pos (by omega)]
    · rw [if_neg beyond, if_neg (by omega), copyMem, if_pos (by omega), Nat.add_sub_cancel_left]
      exact holds index bound
  constructor
  · intro kept byte member
    obtain ⟨index, bound, rfl⟩ := getElem_of_mem member
    rw [length_drop] at bound
    have value := kept (source - destination + index) (by omega)
    rw [outcome _ (by omega), if_pos (Nat.le_add_right _ _)] at value
    rw [getElem_drop, ← getD_eq_getElem _ 0]
    exact value.symm
  · intro zeros index bound
    rw [outcome index bound]
    split
    · rename_i beyond
      have member : bytes.getD index 0 ∈ bytes.drop (source - destination) := by
        rw [getD_eq_getElem _ _ bound, mem_drop_iff_getElem]
        exact ⟨index - (source - destination), by omega, by congr 1; omega⟩
      exact (zeros _ member).symm
    · rfl

theorem Holds.load {width offset : Nat} (holds : Holds memory address bytes)
    (inside : offset + width ≤ bytes.length) :
    load memory width (address + offset) = field bytes width offset := by
  apply load_shift
  intro index bound
  rw [Nat.add_assoc]
  exact holds (offset + index) (by omega)

theorem Holds.unique {right : List UInt8} (holds : Holds memory address bytes)
    (same : Holds memory address right) (sized : bytes.length = right.length) : bytes = right := by
  apply ext_getElem sized
  intro index left bound
  have byte := (holds index left).symm.trans (same index bound)
  rwa [getD_eq_getElem _ _ left, getD_eq_getElem _ _ bound] at byte

@[simp] theorem length_bytesOf (width value : Nat) : (bytesOf width value).length = width := by
  rw [bytesOf, length_map, length_range]

theorem field_bytesOf (width value : Nat) : field (bytesOf width value) width 0 = value % 256 ^ width := by
  rw [field, ← load_store (fun _ => 0) width 0 value]
  apply load_congr
  intro place _ upper
  rw [Nat.zero_add] at upper
  rw [store, if_pos ⟨Nat.zero_le _, by omega⟩, Nat.sub_zero,
    getD_eq_getElem _ _ (by rwa [length_bytesOf])]
  simp [bytesOf]

structure Wrote (memory : Memory) (address : Nat) (bytes : List UInt8) (last : Memory) : Prop where
  holds : Holds last address bytes
  frame : ∀ place, place < address ∨ address + bytes.length ≤ place → last place = memory place

section Writes
variable {last : Memory} {place : Nat}

theorem Wrote.start (memory : Memory) (address : Nat) : Wrote memory address [] memory :=
  ⟨holds_nil, fun _ _ => rfl⟩

theorem Wrote.append (wrote : Wrote memory address bytes last) {more : List UInt8}
    (next : Wrote last (address + bytes.length) more other) :
    Wrote memory address (bytes ++ more) other := by
  constructor
  · refine holds_append.mpr ⟨wrote.holds.congr fun place _ upper => ?_, next.holds⟩
    exact next.frame place (Or.inl upper)
  · intro place outside
    rw [length_append] at outside
    rw [next.frame place (by omega), wrote.frame place (by omega)]

theorem wrote_store (memory : Memory) (width address value : Nat) :
    Wrote memory address (bytesOf width value) (store memory width address value) := by
  constructor
  · intro index bound
    have inside := bound
    rw [length_bytesOf] at inside
    rw [store, if_pos (by omega), Nat.add_sub_cancel_left, getD_eq_getElem _ _ bound]
    simp [bytesOf]
  · intro place outside
    rw [length_bytesOf] at outside
    rw [store, if_neg (by omega)]

theorem wrote_writeBytes (memory : Memory) (address : Nat) (bytes : List UInt8) :
    Wrote memory address bytes (writeBytes memory address bytes) := by
  constructor
  · intro index bound
    rw [writeBytes, if_pos (by omega), Nat.add_sub_cancel_left]
  · intro place outside
    rw [writeBytes, if_neg (by omega)]

theorem wrote_zeroMem (memory : Memory) (address length : Nat) :
    Wrote memory address (replicate length 0) (zeroMem memory address length) := by
  constructor
  · intro index bound
    rw [length_replicate] at bound
    rw [zeroMem, if_pos (by omega), getD_replicate _ bound]
  · intro place outside
    rw [length_replicate] at outside
    rw [zeroMem, if_neg (by omega)]

theorem wrote_copyMem (holds : Holds memory source bytes) :
    Wrote memory destination bytes (copyMem memory destination source bytes.length) := by
  refine ⟨holds.copied (Nat.le_refl _), fun place outside => ?_⟩
  rw [copyMem, if_neg (by omega)]

theorem store_comm {left right width value wide found : Nat}
    (apart : left + width ≤ right ∨ right + wide ≤ left) :
    store (store memory width left value) wide right found =
      store (store memory wide right found) width left value := by
  funext place
  simp only [store]
  split <;> split <;> first | rfl | omega

end Writes

theorem field_append_left {rest : List UInt8} {width offset : Nat}
    (inside : offset + width ≤ bytes.length) :
    field (bytes ++ rest) width offset = field bytes width offset :=
  load_congr fun _ _ upper => getD_append _ _ _ _ (by omega)

theorem field_append_right (front rest : List UInt8) (width offset : Nat) :
    field (front ++ rest) width (front.length + offset) = field rest width offset := by
  apply load_shift
  intro index _
  rw [getD_append_right _ _ _ _ (by omega)]
  congr 1
  omega

def setBytes (bytes : List UInt8) (offset : Nat) (more : List UInt8) : List UInt8 :=
  (List.range bytes.length).map (writeBytes (fun index => bytes.getD index 0) offset more)

@[simp] theorem length_setBytes (bytes : List UInt8) (offset : Nat) (more : List UInt8) :
    (setBytes bytes offset more).length = bytes.length := by
  rw [setBytes, length_map, length_range]

variable {more : List UInt8}

theorem getD_setBytes {offset index : Nat} (bound : index < bytes.length) :
    (setBytes bytes offset more).getD index 0 =
      writeBytes (fun index => bytes.getD index 0) offset more index := by
  rw [getD_eq_getElem _ _ (by rwa [length_setBytes])]
  simp [setBytes]

theorem field_setBytes_apart {offset count start : Nat}
    (inside : start + count ≤ bytes.length) (apart : start + count ≤ offset) :
    field (setBytes bytes offset more) count start = field bytes count start := by
  apply load_congr
  intro place lower upper
  rw [getD_setBytes (by omega), writeBytes, if_neg (by omega)]

theorem Holds.write {offset : Nat} (holds : Holds memory address bytes) :
    Holds (writeBytes memory (address + offset) more) address (setBytes bytes offset more) := by
  intro index bound
  rw [length_setBytes] at bound
  rw [getD_setBytes bound, writeBytes, writeBytes, holds index bound]
  by_cases inside : offset ≤ index ∧ index < offset + more.length
  · rw [if_pos (by omega), if_pos inside, Nat.add_sub_add_left]
  · rw [if_neg (by omega), if_neg inside]

def setField (bytes : List UInt8) (width offset value : Nat) : List UInt8 :=
  (List.range bytes.length).map (store (fun index => bytes.getD index 0) width offset value)

@[simp] theorem length_setField (bytes : List UInt8) (width offset value : Nat) :
    (setField bytes width offset value).length = bytes.length := by
  rw [setField, length_map, length_range]

theorem getD_setField {width offset value index : Nat} (bound : index < bytes.length) :
    (setField bytes width offset value).getD index 0 =
      store (fun index => bytes.getD index 0) width offset value index := by
  rw [getD_eq_getElem _ _ (by rwa [length_setField])]
  simp [setField]

variable {width offset value : Nat}

theorem field_setField (inside : offset + width ≤ bytes.length) :
    field (setField bytes width offset value) width offset = value % 256 ^ width := by
  rw [field, ← load_store (fun index => bytes.getD index 0)]
  exact load_congr fun place _ upper => getD_setField (by omega)

theorem field_setField_apart {width offset value count start : Nat}
    (inside : start + count ≤ bytes.length) (apart : start + count ≤ offset ∨ offset + width ≤ start) :
    field (setField bytes width offset value) count start = field bytes count start := by
  apply load_congr
  intro place lower upper
  rw [getD_setField (by omega), store, if_neg (by omega)]

theorem Holds.store (holds : Holds memory address bytes) :
    Holds (store memory width (address + offset) value) address
      (setField bytes width offset value) := by
  intro index bound
  rw [length_setField] at bound
  rw [getD_setField bound, AddressSpace.store, AddressSpace.store, holds index bound]
  by_cases inside : offset ≤ index ∧ index < offset + width
  · rw [if_pos (by omega), if_pos inside, Nat.add_sub_add_left]
  · rw [if_neg (by omega), if_neg inside]

theorem load_injective {width : Nat} (same : load memory width address = load other width address) :
    ∀ place, address ≤ place → place < address + width → memory place = other place := by
  induction width generalizing address with
  | zero => exact fun place lower upper => absurd upper (by omega)
  | succ width ih =>
    rw [AddressSpace.load, AddressSpace.load] at same
    have first := (memory address).toNat_lt
    have second := (other address).toNat_lt
    have behind : AddressSpace.load memory width (address + 1) =
        AddressSpace.load other width (address + 1) := by omega
    intro place lower upper
    rcases Nat.eq_or_lt_of_le lower with rfl | beyond
    · exact UInt8.toNat_inj.mp (by omega)
    · exact ih behind place beyond (by omega)

def memoryOf (address : Nat) (bytes : List UInt8) : Memory := fun place =>
  bytes.getD (place - address) 0

theorem holds_memoryOf (address : Nat) (bytes : List UInt8) :
    Holds (memoryOf address bytes) address bytes := by
  intro index _
  rw [memoryOf, Nat.add_sub_cancel_left]

def bytesAt (memory : Memory) (address length : Nat) : List UInt8 :=
  (List.range length).map fun index => memory (address + index)

theorem Holds.bytesAt (holds : Holds memory address bytes) :
    bytesAt memory address bytes.length = bytes := by
  apply ext_getElem
  · rw [PlacedBytes.bytesAt, length_map, length_range]
  · intro index left bound
    rw [← getD_eq_getElem _ 0 bound, ← holds index bound]
    simp [PlacedBytes.bytesAt]

end OpenCore.PlacedBytes
