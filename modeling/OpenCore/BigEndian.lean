import Mathlib.Data.Nat.Digits.Lemmas
import Mathlib.Tactic.Ring

/-!
Byte strings as numbers, the most significant byte first, and numbers as byte
strings of a given length. The two are inverse to each other on the numbers a
string of that length can hold.
-/

namespace OpenCore.BigEndian

def bigEndian (bytes : List UInt8) : Nat :=
  bytes.foldl (fun number byte => number * 256 + byte.toNat) 0

def toBigEndian : Nat → Nat → List UInt8
  | 0, _ => []
  | count + 1, number => toBigEndian count (number / 256) ++ [UInt8.ofNat number]

@[simp] theorem bigEndian_nil : bigEndian [] = 0 := rfl

@[simp] theorem bigEndian_concat (bytes : List UInt8) (byte : UInt8) :
    bigEndian (bytes ++ [byte]) = bigEndian bytes * 256 + byte.toNat := by
  rw [bigEndian, List.foldl_append]
  rfl

theorem bigEndian_append (high low : List UInt8) :
    bigEndian (high ++ low) = bigEndian high * 256 ^ low.length + bigEndian low := by
  induction low using List.reverseRecOn with
  | nil => simp
  | append_singleton low byte ih =>
    rw [← List.append_assoc, bigEndian_concat, ih, bigEndian_concat, List.length_append,
      List.length_singleton, pow_succ]
    ring

@[simp] theorem length_toBigEndian (count number : Nat) :
    (toBigEndian count number).length = count := by
  induction count generalizing number with
  | zero => rfl
  | succ count ih => rw [toBigEndian, List.length_append, ih, List.length_singleton]

theorem toBigEndian_bigEndian (bytes : List UInt8) :
    toBigEndian bytes.length (bigEndian bytes) = bytes := by
  induction bytes using List.reverseRecOn with
  | nil => rfl
  | append_singleton bytes byte ih =>
    have small := byte.toNat_lt
    have high : (bigEndian bytes * 256 + byte.toNat) / 256 = bigEndian bytes := by omega
    have low : UInt8.ofNat (bigEndian bytes * 256 + byte.toNat) = byte := by
      apply UInt8.toNat_inj.mp
      rw [UInt8.toNat_ofNat']
      omega
    rw [bigEndian_concat, List.length_append, List.length_singleton, toBigEndian, high, low, ih]

theorem toBigEndian_eq {bytes : List UInt8} {number size : Nat} (same : number = bigEndian bytes)
    (length : bytes.length = size) : toBigEndian size number = bytes := by
  rw [same, ← length, toBigEndian_bigEndian]

theorem bigEndian_toBigEndian {count number : Nat} (fits : number < 256 ^ count) :
    bigEndian (toBigEndian count number) = number := by
  induction count generalizing number with
  | zero =>
    rw [Nat.pow_zero] at fits
    rw [toBigEndian, bigEndian_nil]
    omega
  | succ count ih =>
    have high : number / 256 < 256 ^ count := by
      rw [pow_succ] at fits
      exact Nat.div_lt_of_lt_mul (by rwa [mul_comm])
    rw [toBigEndian, bigEndian_concat, ih high, UInt8.toNat_ofNat']
    omega

end OpenCore.BigEndian
