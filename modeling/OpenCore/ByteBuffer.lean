import Mathlib.Data.List.Basic
import Mathlib.Tactic.Ring

/-!
Byte buffers with little-endian words of any width. A load reads past the end
as zero, as the list default; the checked forms refuse such an access, so a
program written with them returns `none` exactly when it leaves its buffer.
-/

namespace OpenCore.ByteBuffer

open List

abbrev Bytes := List UInt8

def byteAt (buffer : Bytes) (offset : Nat) : Nat := (buffer.getD offset 0).toNat

def load (buffer : Bytes) : Nat → Nat → Nat
  | 0, _ => 0
  | width + 1, offset =>
    byteAt buffer offset + 256 * load buffer width (offset + 1)

def store : Bytes → Nat → Nat → Nat → Bytes
  | buffer, 0, _, _ => buffer
  | buffer, width + 1, offset, value =>
    store (buffer.set offset (UInt8.ofNat value)) width (offset + 1) (value / 256)

def load? (buffer : Bytes) (width offset : Nat) : Option Nat :=
  if offset + width ≤ buffer.length then some (load buffer width offset) else none

def encode : Nat → Nat → Bytes
  | 0, _ => []
  | width + 1, value => UInt8.ofNat value :: encode width (value / 256)

def overlay : Bytes → Nat → Bytes → Bytes
  | buffer, _, [] => buffer
  | buffer, offset, byte :: rest => overlay (buffer.set offset byte) (offset + 1) rest

def Apart (a n b m : Nat) : Prop := a + n ≤ b ∨ b + m ≤ a

instance (a n b m : Nat) : Decidable (Apart a n b m) :=
  inferInstanceAs (Decidable (_ ∨ _))

theorem overlay_length (buffer : Bytes) (offset : Nat) (data : Bytes) :
    (overlay buffer offset data).length = buffer.length := by
  induction data generalizing buffer offset with
  | nil => rfl
  | cons byte rest ih => rw [overlay, ih, length_set]

theorem overlay_take {buffer : Bytes} {offset : Nat} {data : Bytes}
    (inside : offset + data.length ≤ buffer.length) :
    (overlay buffer offset data).take (offset + data.length) = buffer.take offset ++ data := by
  induction data generalizing buffer offset with
  | nil => rw [overlay, length_nil, add_zero, append_nil]
  | cons byte rest ih =>
    rw [length_cons] at inside
    have shifted : offset + (rest.length + 1) = offset + 1 + rest.length := by omega
    have within : offset + 1 + rest.length ≤ (buffer.set offset byte).length := by
      rw [length_set]
      omega
    rw [overlay, length_cons, shifted, ih within]
    have first : (buffer.set offset byte).take (offset + 1) = buffer.take offset ++ [byte] := by
      rw [take_add_one, take_set_of_le (le_refl offset), getElem?_set_self (by omega)]
      rfl
    rw [first, append_assoc, singleton_append]

theorem overlay_getElem? {buffer : Bytes} {offset : Nat} {data : Bytes}
    (inside : offset + data.length ≤ buffer.length) (index : Nat) :
    (overlay buffer offset data)[index]? =
      if offset ≤ index ∧ index < offset + data.length then data[index - offset]?
      else buffer[index]? := by
  induction data generalizing buffer offset with
  | nil =>
    rw [overlay, if_neg]
    rw [length_nil]
    omega
  | cons byte rest ih =>
    rw [length_cons] at inside ⊢
    have within : offset + 1 + rest.length ≤ (buffer.set offset byte).length := by
      rw [length_set]
      omega
    rw [overlay, ih within]
    by_cases first : index = offset
    · subst first
      rw [if_neg (by omega), if_pos (by omega), getElem?_set_self (by omega), Nat.sub_self,
        getElem?_cons_zero]
    · by_cases behind : offset + 1 ≤ index ∧ index < offset + 1 + rest.length
      · have step : index - offset = index - (offset + 1) + 1 := by omega
        rw [if_pos behind, if_pos (by omega), step, getElem?_cons_succ]
      · rw [if_neg behind, if_neg (by omega), getElem?_set_ne (Ne.symm first)]

theorem Apart.symm {a n b m : Nat} (apart : Apart a n b m) : Apart b m a n :=
  Or.symm apart

theorem byteAt_lt (buffer : Bytes) (offset : Nat) : byteAt buffer offset < 256 :=
  UInt8.toNat_lt _

theorem byteAt_set (buffer : Bytes) (target offset : Nat) (value : UInt8)
    (inside : target < buffer.length) :
    byteAt (buffer.set target value) offset =
      if offset = target then value.toNat else byteAt buffer offset := by
  unfold byteAt
  by_cases same : offset = target
  · subst same
    simp [List.getD, inside]
  · have different : target ≠ offset := fun h => same h.symm
    simp [List.getD, getElem?_set_ne different, same]

@[simp] theorem store_length (buffer : Bytes) (width offset value : Nat) :
    (store buffer width offset value).length = buffer.length := by
  induction width generalizing buffer offset value with
  | zero => rfl
  | succ width ih => simp [store, ih]

theorem byteAt_store_outside (buffer : Bytes) (width offset value index : Nat)
    (inside : offset + width ≤ buffer.length) (outside : index < offset ∨ offset + width ≤ index) :
    byteAt (store buffer width offset value) index = byteAt buffer index := by
  induction width generalizing buffer offset value with
  | zero => rfl
  | succ width ih =>
    have tail := ih (buffer.set offset (UInt8.ofNat value)) (offset + 1) (value / 256)
      (by simpa using by omega) (by omega)
    rw [store, tail, byteAt_set buffer offset index _ (by omega)]
    have different : index ≠ offset := by omega
    simp [different]

theorem load_congr (left right : Bytes) (width leftOffset rightOffset : Nat)
    (same : ∀ index, index < width →
      byteAt left (leftOffset + index) = byteAt right (rightOffset + index)) :
    load left width leftOffset = load right width rightOffset := by
  induction width generalizing leftOffset rightOffset with
  | zero => rfl
  | succ width ih =>
    have first := same 0 (by omega)
    have rest := ih (leftOffset + 1) (rightOffset + 1) (by
      intro index bound
      have next := same (index + 1) (by omega)
      simpa [add_assoc, add_comm 1 index] using next)
    simp only [add_zero] at first
    simp only [load, first, rest]

theorem load_lt (buffer : Bytes) (width offset : Nat) :
    load buffer width offset < 256 ^ width := by
  induction width generalizing offset with
  | zero => simp [load]
  | succ width ih =>
    have first := byteAt_lt buffer offset
    have rest := ih (offset + 1)
    rw [load, pow_succ]
    omega

theorem load_store_same (buffer : Bytes) (width offset value : Nat)
    (inside : offset + width ≤ buffer.length) :
    load (store buffer width offset value) width offset = value % 256 ^ width := by
  induction width generalizing buffer offset value with
  | zero => simp [load, Nat.mod_one]
  | succ width ih =>
    have bound : offset < buffer.length := by omega
    have rest := ih (buffer.set offset (UInt8.ofNat value)) (offset + 1) (value / 256)
      (by simpa using by omega)
    have first : byteAt (store (buffer.set offset (UInt8.ofNat value)) width
        (offset + 1) (value / 256)) offset = value % 256 := by
      rw [byteAt_store_outside _ _ _ _ _ (by simpa using by omega) (by omega),
        byteAt_set buffer offset offset _ bound]
      simp
    rw [load, store, first, rest, Nat.pow_succ', Nat.mod_mul]

theorem load_store_apart (buffer : Bytes) (width offset value width' offset' : Nat)
    (inside : offset + width ≤ buffer.length) (apart : Apart offset width offset' width') :
    load (store buffer width offset value) width' offset' = load buffer width' offset' := by
  apply load_congr
  intro index bound
  apply byteAt_store_outside buffer width offset value _ inside
  unfold Apart at apart
  omega

theorem load?_eq_some (buffer : Bytes) (width offset : Nat)
    (inside : offset + width ≤ buffer.length) :
    load? buffer width offset = some (load buffer width offset) := by
  simp [load?, inside]

@[simp] theorem encode_length (width value : Nat) : (encode width value).length = width := by
  induction width generalizing value with
  | zero => rfl
  | succ width ih => simp [encode, ih]

theorem load_append (front rest : Bytes) (width offset : Nat) (behind : front.length ≤ offset) :
    load (front ++ rest) width offset = load rest width (offset - front.length) := by
  apply load_congr
  intro index _
  have skipped : (front ++ rest)[offset + index]? = rest[offset - front.length + index]? := by
    rw [getElem?_append_right (by omega)]
    congr 1
    omega
  simp only [byteAt, List.getD, skipped]

theorem load_encode (rest : Bytes) (width value : Nat) :
    load (encode width value ++ rest) width 0 = value % 256 ^ width := by
  induction width generalizing value with
  | zero => simp [load, Nat.mod_one]
  | succ width ih =>
    have tail := load_append [UInt8.ofNat value] (encode width (value / 256) ++ rest) width 1
      (le_refl 1)
    simp only [length_singleton, Nat.sub_self, singleton_append] at tail
    have first : byteAt (UInt8.ofNat value :: (encode width (value / 256) ++ rest)) 0 =
        value % 256 := by simp [byteAt]
    rw [encode, cons_append, load, first, tail, ih, Nat.pow_succ', Nat.mod_mul]

theorem load_zeros (size width offset : Nat) : load (replicate size 0) width offset = 0 := by
  induction width generalizing offset with
  | zero => rfl
  | succ width ih =>
    have first : byteAt (replicate size 0) offset = 0 := by
      simp [byteAt, List.getD, getElem?_replicate]
      split <;> rfl
    rw [load, first, ih]

end OpenCore.ByteBuffer
