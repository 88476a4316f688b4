import Mathlib.Data.Nat.Basic
import Mathlib.Tactic.Ring

/-!
Memory as a function of the address, with little-endian loads. A load has a result
at every address; which addresses a program may look at is stated next to the program.
-/

namespace OpenCore.AddressSpace

abbrev Memory := Nat → UInt8

def load (memory : Memory) : Nat → Nat → Nat
  | 0, _ => 0
  | width + 1, address => (memory address).toNat + 256 * load memory width (address + 1)

def store (memory : Memory) (width address value : Nat) : Memory := fun place =>
  if address ≤ place ∧ place < address + width then UInt8.ofNat (value / 256 ^ (place - address))
  else memory place

def copyMem (memory : Memory) (destination source length : Nat) : Memory := fun place =>
  if destination ≤ place ∧ place < destination + length then memory (source + (place - destination))
  else memory place

variable {memory other : Memory}

theorem load_congr {width address : Nat}
    (same : ∀ place, address ≤ place → place < address + width → memory place = other place) :
    load memory width address = load other width address := by
  induction width generalizing address with
  | zero => rfl
  | succ width ih =>
    rw [load, load, same address (by omega) (by omega)]
    rw [ih fun place lower upper => same place (by omega) (by omega)]

theorem load_shift {width address place : Nat}
    (same : ∀ index, index < width → memory (address + index) = other (place + index)) :
    load memory width address = load other width place := by
  induction width generalizing address place with
  | zero => rfl
  | succ width ih =>
    have first := same 0 (Nat.succ_pos width)
    have rest : load memory width (address + 1) = load other width (place + 1) := by
      apply ih
      intro index bound
      have byte := same (index + 1) (by omega)
      rwa [show address + (index + 1) = address + 1 + index by omega,
        show place + (index + 1) = place + 1 + index by omega] at byte
    rw [load, load, rest]
    rw [add_zero, add_zero] at first
    rw [first]

theorem load_store (memory : Memory) (width address value : Nat) :
    load (store memory width address value) width address = value % 256 ^ width := by
  have within : ∀ count start, address ≤ start → start + count = address + width →
      load (store memory width address value) count start =
        value / 256 ^ (start - address) % 256 ^ count := by
    intro count
    induction count with
    | zero =>
      intro start _ _
      rw [load, Nat.pow_zero, Nat.mod_one]
    | succ count ih =>
      intro start lower ends
      have byte : store memory width address value start =
          UInt8.ofNat (value / 256 ^ (start - address)) := by
        rw [store, if_pos ⟨lower, by omega⟩]
      have rest := ih (start + 1) (by omega) (by omega)
      rw [show start + 1 - address = start - address + 1 by omega, pow_succ,
        ← Nat.div_div_eq_div_mul] at rest
      have power : 256 ^ (count + 1) = 256 * 256 ^ count := by ring
      rw [load, byte, rest, UInt8.toNat_ofNat', power, Nat.mod_mul]
  have whole := within width address (le_refl _) rfl
  rwa [Nat.sub_self, Nat.pow_zero, Nat.div_one] at whole

theorem load_lt (memory : Memory) (width address : Nat) : load memory width address < 256 ^ width := by
  induction width generalizing address with
  | zero => exact Nat.one_pos
  | succ width ih =>
    have byte := (memory address).toNat_lt
    have rest := ih (address + 1)
    rw [load, pow_succ]
    omega

def swapBytes32 (value : Nat) : Nat :=
  value % 256 * 16777216 + value / 256 % 256 * 65536 + value / 65536 % 256 * 256 +
    value / 16777216 % 256

end OpenCore.AddressSpace
