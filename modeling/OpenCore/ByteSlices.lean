import OpenCore.ByteBuffer
import OpenCore.BigEndian

/-!
Stretches of a byte buffer, and the big-endian words that stand in them. A
stretch reads back what was laid over it, and is not affected by what is laid
over bytes apart from it.
-/

namespace OpenCore.ByteSlices

open ByteBuffer BigEndian List

def slice (buffer : Bytes) (offset size : Nat) : Bytes := (buffer.drop offset).take size

def word (buffer : Bytes) (offset : Nat) : Nat := bigEndian (slice buffer offset 4)

variable {buffer data : Bytes} {offset size target : Nat}

theorem length_slice (inside : offset + size ≤ buffer.length) :
    (slice buffer offset size).length = size := by
  rw [slice, length_take, length_drop]
  omega

theorem getElem?_slice (index : Nat) :
    (slice buffer offset size)[index]? = if index < size then buffer[offset + index]? else none := by
  rw [slice, getElem?_take, getElem?_drop]

theorem slice_overlay_same (inside : offset + data.length ≤ buffer.length) :
    slice (overlay buffer offset data) offset data.length = data := by
  apply ext_getElem?
  intro index
  rw [getElem?_slice, overlay_getElem? inside]
  split
  next within => rw [if_pos (by omega), Nat.add_sub_cancel_left]
  next beyond => rw [getElem?_eq_none (Nat.le_of_not_lt beyond)]

theorem overlay_frame {index : Nat} (outside : index < offset ∨ offset + data.length ≤ index) :
    (overlay buffer offset data)[index]? = buffer[index]? := by
  induction data generalizing buffer offset with
  | nil => rfl
  | cons byte rest ih =>
    rw [length_cons] at outside
    rw [overlay, ih (by omega), getElem?_set_ne (by omega)]

theorem slice_overlay_frame (apart : Apart offset size target data.length) :
    slice (overlay buffer target data) offset size = slice buffer offset size := by
  apply ext_getElem?
  intro index
  rw [getElem?_slice, getElem?_slice]
  split
  next within =>
    apply overlay_frame
    rcases apart with before | behind
    · exact .inl (by omega)
    · exact .inr (by omega)
  next => rfl

theorem slice_overlay_apart (inside : target + data.length ≤ buffer.length)
    (apart : Apart offset size target data.length) :
    slice (overlay buffer target data) offset size = slice buffer offset size := by
  apply ext_getElem?
  intro index
  rw [getElem?_slice, getElem?_slice, overlay_getElem? inside]
  split
  next within =>
    rw [if_neg]
    rcases apart with before | behind
    · omega
    · omega
  next => rfl

theorem slice_length_le (buffer : Bytes) (offset size : Nat) :
    (slice buffer offset size).length = min size (buffer.length - offset) := by
  rw [slice, length_take, length_drop]

theorem slice_add (buffer : Bytes) (offset front rest : Nat) :
    slice buffer offset (front + rest) =
      slice buffer offset front ++ slice buffer (offset + front) rest := by
  rw [slice, slice, slice, take_add, drop_drop]

theorem slice_append_left {front rest : Bytes} (inside : offset + size ≤ front.length) :
    slice (front ++ rest) offset size = slice front offset size := by
  rw [slice, slice, drop_append_of_le_length (by omega), take_append_of_le_length]
  rw [length_drop]
  omega

theorem slice_append_right (front rest : Bytes) (offset size : Nat) :
    slice (front ++ rest) (front.length + offset) size = slice rest offset size := by
  rw [slice, slice, drop_append, drop_eq_nil_of_le (Nat.le_add_right _ _),
    nil_append, Nat.add_sub_cancel_left]

theorem slice_slice {inner count : Nat} (within : inner + count ≤ size) :
    slice (slice buffer offset size) inner count = slice buffer (offset + inner) count := by
  apply ext_getElem?
  intro index
  rw [getElem?_slice, getElem?_slice, getElem?_slice]
  split
  next small => rw [if_pos (by omega), Nat.add_assoc]
  next => rfl

theorem bigEndian_lt (bytes : List UInt8) : bigEndian bytes < 256 ^ bytes.length := by
  induction bytes using List.reverseRecOn with
  | nil => exact Nat.one_pos
  | append_singleton bytes byte ih =>
    have small := byte.toNat_lt
    rw [bigEndian_concat, length_append, length_singleton, Nat.pow_succ]
    omega

theorem word_lt (buffer : Bytes) (offset : Nat) : word buffer offset < 256 ^ 4 := by
  have short : (slice buffer offset 4).length ≤ 4 := length_take_le _ _
  exact (bigEndian_lt _).trans_le (Nat.pow_le_pow_right (by decide) short)

section Writes

theorem overlay_append (buffer front rest : Bytes) (offset : Nat) :
    overlay buffer offset (front ++ rest) =
      overlay (overlay buffer offset front) (offset + front.length) rest := by
  induction front generalizing buffer offset with
  | nil => rfl
  | cons byte tail ih =>
    rw [cons_append, overlay, overlay, ih, length_cons]
    congr 1
    omega

theorem overlay_set {index : Nat} (buffer : Bytes) (byte : UInt8)
    (apart : Apart index 1 offset data.length) :
    overlay (buffer.set index byte) offset data = (overlay buffer offset data).set index byte := by
  induction data generalizing buffer offset with
  | nil => rfl
  | cons first rest ih =>
    unfold Apart at apart ih
    rw [length_cons] at apart
    rw [overlay, overlay, set_comm _ _ (by omega), ih]
    omega

theorem overlay_comm {left right : Bytes} (buffer : Bytes)
    (apart : Apart offset left.length target right.length) :
    overlay (overlay buffer offset left) target right =
      overlay (overlay buffer target right) offset left := by
  induction left generalizing buffer offset with
  | nil => rfl
  | cons byte rest ih =>
    unfold Apart at apart ih
    rw [length_cons] at apart
    rw [overlay, ih _ (by omega), overlay_set, overlay]
    unfold Apart
    omega

theorem overlay_whole (buffer data : Bytes) (same : data.length = buffer.length) :
    overlay buffer 0 data = data := by
  apply ext_getElem?
  intro index
  rw [overlay_getElem? (by omega)]
  split
  · rw [Nat.sub_zero]
  · rw [getElem?_eq_none (by omega), getElem?_eq_none (by omega)]

theorem overlay_within (front back : Bytes) {place : Nat}
    (inside : place + data.length ≤ buffer.length) :
    overlay (front ++ (buffer ++ back)) (front.length + place) data =
      front ++ (overlay buffer place data ++ back) := by
  induction data generalizing buffer place with
  | nil => rfl
  | cons byte rest ih =>
    rw [length_cons] at inside
    have set : (front ++ (buffer ++ back)).set (front.length + place) byte =
        front ++ (buffer.set place byte ++ back) := by
      rw [set_append_right _ _ (Nat.le_add_right _ _), Nat.add_sub_cancel_left,
        set_append_left _ _ (by omega)]
    rw [overlay, overlay, set, Nat.add_assoc, ih]
    rw [length_set]
    omega

theorem overlay_between (front middle back : Bytes) (same : data.length = middle.length) :
    overlay (front ++ (middle ++ back)) front.length data = front ++ (data ++ back) := by
  have within := @overlay_within middle data front back 0 (by omega)
  rw [Nat.add_zero, overlay_whole middle data same] at within
  exact within

end Writes

end OpenCore.ByteSlices
