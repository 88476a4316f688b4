import OpenCore.Base
import OpenCore.ByteBuffer
import Mathlib.Data.Nat.ModEq

/-!
The checksum of an APFS block. The sums grow without a modulo, which blocks of up to
64 KiB have the room for, and are reduced once at the end.
-/

namespace OpenCore.ApfsFletcher

open Base ByteBuffer List

section Code

def maxUint32 : Nat := u32 - 1

def words : Bytes → List Nat
  | byte0 :: byte1 :: byte2 :: byte3 :: rest => load [byte0, byte1, byte2, byte3] 4 0 :: words rest
  | _ => []

def rounds : List Nat → Nat → Nat → Nat × Nat
  | [], sum1, sum2 => (sum1, sum2)
  | word :: rest, sum1, sum2 =>
    rounds rest ((sum1 + word) % u64) ((sum2 + (sum1 + word) % u64) % u64)

def complement (rem : Nat) : Nat := maxUint32 - rem

def apfsFletcher64 (data : Bytes) : Nat :=
  let sums := rounds (words data) 0 0
  let sum2 := complement ((sums.2 + sums.1) % u64 % maxUint32)
  let sum1 := complement ((sums.1 + sum2) % u64 % maxUint32)
  (sum1 <<< 32) % u64 ||| sum2

def Asserted (data : Bytes) : Prop :=
  0x1000 - 8 ≤ data.length ∧ data.length ≤ 0x10000 - 8 ∧ data.length % 4 = 0

def apfsBlockChecksumVerify (block : Bytes) : Bool :=
  apfsFletcher64 (block.drop 8) = load block 8 0

end Code

structure Block where
  bytes : Bytes
  large : 0x1000 ≤ bytes.length
  small : bytes.length ≤ 0x10000
  aligned : bytes.length % 4 = 0

def Block.data (block : Block) : Bytes := block.bytes.drop 8

section Reference

def fletcher : List Nat → Nat → Nat → Nat × Nat
  | [], sum1, sum2 => (sum1, sum2)
  | word :: rest, sum1, sum2 =>
    fletcher rest ((sum1 + word) % maxUint32) ((sum2 + (sum1 + word) % maxUint32) % maxUint32)

def fletcher64 (list : List Nat) : Nat :=
  let sums := fletcher list 0 0
  let check1 := maxUint32 - (sums.1 + sums.2) % maxUint32
  let check2 := maxUint32 - (sums.1 + check1) % maxUint32
  check2 * u32 + check1

def sums : List Nat → Nat → Nat → Nat × Nat
  | [], sum1, sum2 => (sum1, sum2)
  | word :: rest, sum1, sum2 => sums rest (sum1 + word) (sum2 + (sum1 + word))

theorem fletcher_eq (list : List Nat) (sum1 sum2 : Nat) :
    fletcher list (sum1 % maxUint32) (sum2 % maxUint32) =
      ((sums list sum1 sum2).1 % maxUint32, (sums list sum1 sum2).2 % maxUint32) := by
  induction list generalizing sum1 sum2 with
  | nil => rfl
  | cons word rest ih =>
    rw [fletcher, sums, ← ih]
    congr 1
    · rw [Nat.mod_add_mod]
    · rw [Nat.mod_add_mod sum1, ← Nat.add_mod]

theorem sums_append (front rest : List Nat) (sum1 sum2 : Nat) :
    sums (front ++ rest) sum1 sum2 = sums rest (sums front sum1 sum2).1 (sums front sum1 sum2).2 := by
  induction front generalizing sum1 sum2 with
  | nil => rfl
  | cons word front ih => rw [cons_append, sums, sums, ih]

end Reference

section Bounds

variable {list : List Nat}

theorem words_small : ∀ (data : Bytes), ∀ word ∈ words data, word ≤ maxUint32
  | byte0 :: byte1 :: byte2 :: byte3 :: rest, word, member => by
    rw [words] at member
    rcases mem_cons.mp member with rfl | member
    · exact Nat.le_sub_one_of_lt (load_lt _ 4 0)
    · exact words_small rest word member
  | [], _, member => nomatch member
  | [_], _, member => nomatch member
  | [_, _], _, member => nomatch member
  | [_, _, _], _, member => nomatch member

theorem words_length : ∀ (data : Bytes), 4 * (words data).length ≤ data.length
  | byte0 :: byte1 :: byte2 :: byte3 :: rest => by
    have ih := words_length rest
    rw [words]
    simp only [length_cons]
    omega
  | [] => Nat.le_refl _
  | [_] => Nat.zero_le _
  | [_, _] => Nat.zero_le _
  | [_, _, _] => Nat.zero_le _

/-- After so many words the first sum has grown by as many largest words, and the second
one by as many of the largest first sums. -/
theorem sums_le (small : ∀ word ∈ list, word ≤ maxUint32) (sum1 sum2 : Nat) :
    (sums list sum1 sum2).1 ≤ sum1 + list.length * maxUint32 ∧
      (sums list sum1 sum2).2 ≤ sum2 + list.length * (sum1 + list.length * maxUint32) := by
  induction list generalizing sum1 sum2 with
  | nil => simp only [sums, length_nil, zero_mul, add_zero, le_refl, and_self]
  | cons word rest ih =>
    obtain ⟨bound1, bound2⟩ := ih (fun other member => small other (mem_cons_of_mem _ member))
      (sum1 + word) (sum2 + (sum1 + word))
    have wordSmall := small word mem_cons_self
    rw [sums, length_cons]
    constructor
    · refine bound1.trans ?_
      rw [Nat.succ_mul]
      omega
    · refine bound2.trans ?_
      have step : rest.length * (sum1 + word + rest.length * maxUint32) ≤
          rest.length * (sum1 + (rest.length + 1) * maxUint32) :=
        Nat.mul_le_mul_left _ (by rw [Nat.succ_mul]; omega)
      have last : word ≤ (rest.length + 1) * maxUint32 :=
        wordSmall.trans (Nat.le_mul_of_pos_left _ (Nat.succ_pos _))
      rw [Nat.succ_mul rest.length (sum1 + _)]
      omega

theorem rounds_eq (list : List Nat) (sum1 sum2 : Nat)
    (fits : ∀ count, (sums (list.take count) sum1 sum2).1 < u64 ∧ (sums (list.take count) sum1 sum2).2 < u64) :
    rounds list sum1 sum2 = sums list sum1 sum2 := by
  induction list generalizing sum1 sum2 with
  | nil => rfl
  | cons word rest ih =>
    obtain ⟨first, second⟩ := fits 1
    rw [take_succ_cons, take_zero] at first second
    simp only [sums] at first second
    rw [rounds, sums, Nat.mod_eq_of_lt first, Nat.mod_eq_of_lt second]
    exact ih _ _ fun count => fits (count + 1)

structure Exact (list : List Nat) : Prop where
  rounds : ∀ count, (sums (list.take count) 0 0).1 < u64 ∧ (sums (list.take count) 0 0).2 < u64
  last : (sums list 0 0).2 + (sums list 0 0).1 < u64
  complemented : (sums list 0 0).1 + maxUint32 < u64

theorem exact_of_words (small : ∀ word ∈ list, word ≤ maxUint32) (short : list.length ≤ 0x4000) :
    Exact list := by
  have bound : ∀ count, (sums (list.take count) 0 0).1 ≤ 0x4000 * maxUint32 ∧
      (sums (list.take count) 0 0).2 ≤ 0x4000 * (0x4000 * maxUint32) := by
    intro count
    have length : (list.take count).length ≤ 0x4000 := by
      rw [length_take]
      omega
    obtain ⟨bound1, bound2⟩ := sums_le (fun word member => small word (mem_of_mem_take member)) 0 0
    rw [zero_add] at bound1 bound2
    rw [zero_add] at bound2
    exact ⟨bound1.trans (Nat.mul_le_mul_right _ length),
      bound2.trans (Nat.mul_le_mul length (Nat.mul_le_mul_right _ length))⟩
  have whole := bound list.length
  rw [take_length] at whole
  have largest : maxUint32 = 4294967295 := rfl
  rw [largest] at bound whole
  refine ⟨fun count => ?_, ?_, ?_⟩
  · have := bound count
    rw [u64_val]
    omega
  · rw [u64_val]
    omega
  · rw [u64_val, largest]
    omega

end Bounds

section Checksum

variable {list : List Nat} {data : Bytes}

theorem complement_pos (sum : Nat) : 0 < complement (sum % maxUint32) ∧
    complement (sum % maxUint32) ≤ maxUint32 := by
  have := Nat.mod_lt sum (show 0 < maxUint32 by decide)
  rw [complement]
  omega

theorem complement_cancels (sum : Nat) : (sum + complement (sum % maxUint32)) % maxUint32 = 0 := by
  have less := Nat.mod_lt sum (show 0 < maxUint32 by decide)
  rw [complement, Nat.add_mod, ← Nat.add_mod_mod, Nat.mod_mod, Nat.add_mod_mod,
    Nat.add_sub_cancel' (Nat.le_of_lt less), Nat.mod_self]

theorem apfsFletcher64_eq (exact' : Exact (words data)) :
    let sum := sums (words data) 0 0
    let check1 := complement ((sum.2 + sum.1) % maxUint32)
    apfsFletcher64 data = complement ((sum.1 + check1) % maxUint32) * u32 + check1 := by
  intro sum check1
  have check1Small : check1 ≤ maxUint32 := (complement_pos _).2
  have largest : maxUint32 < u32 := by decide
  have last : sum.2 + sum.1 < u64 := exact'.last
  have complemented : sum.1 + maxUint32 < u64 := exact'.complemented
  have run : rounds (words data) 0 0 = sum := rounds_eq _ _ _ exact'.rounds
  rw [apfsFletcher64, run, Nat.mod_eq_of_lt last, Nat.mod_eq_of_lt (show sum.1 + check1 < u64 by omega)]
  have check2Small := (complement_pos (sum.1 + check1)).2
  generalize complement ((sum.1 + check1) % maxUint32) = check2 at check2Small
  have shifted : check2 <<< 32 = check2 * u32 := by rw [Nat.shiftLeft_eq]; rfl
  have narrow : check2 * u32 < u64 := by rw [u64_val, u32_val] at *; omega
  rw [shifted, Nat.mod_eq_of_lt narrow, ← shifted,
    ← Nat.shiftLeft_add_eq_or_of_lt (Nat.lt_of_le_of_lt check1Small largest)]

theorem fletcher64_eq (list : List Nat) :
    fletcher64 list =
      complement (((sums list 0 0).1 + complement (((sums list 0 0).2 + (sums list 0 0).1) % maxUint32)) %
        maxUint32) * u32 + complement (((sums list 0 0).2 + (sums list 0 0).1) % maxUint32) := by
  have run := fletcher_eq list 0 0
  rw [Nat.zero_mod] at run
  rw [fletcher64, run]
  simp only
  rw [← Nat.add_mod, add_comm (sums list 0 0).1 (sums list 0 0).2, Nat.mod_add_mod]
  rfl

theorem load_halves (block : Bytes) : load block 8 0 = load block 4 0 + u32 * load block 4 4 := by
  simp only [load, u32_val]
  ring

end Checksum

/-- The checksum of a block is the one of Fletcher-64, no sum wraps, and in a block that
is accepted the sums go on to zero over its checksum. -/
theorem apfsFletcher64_reference (block : Block) :
    Asserted block.data ∧ Exact (words block.data) ∧
      apfsFletcher64 block.data = fletcher64 (words block.data) ∧
      (apfsBlockChecksumVerify block.bytes = true →
        let sum := sums (words block.data ++ [load block.bytes 4 0, load block.bytes 4 4]) 0 0
        sum.1 % maxUint32 = 0 ∧ sum.2 % maxUint32 = 0) := by
  have length : block.data.length = block.bytes.length - 8 := length_drop
  have large := block.large
  have small := block.small
  have aligned := block.aligned
  have short := words_length block.data
  have exact' : Exact (words block.data) := exact_of_words (words_small _) (by omega)
  have value := apfsFletcher64_eq exact'
  refine ⟨⟨by omega, by omega, by omega⟩, exact', value.trans (fletcher64_eq _).symm, ?_⟩
  intro accepted
  have stored := of_decide_eq_true accepted
  rw [← Block.data, value, load_halves] at stored
  have low := load_lt block.bytes 4 0
  have check1Small := (complement_pos ((sums (words block.data) 0 0).2 + (sums (words block.data) 0 0).1)).2
  rw [sums_append]
  have cancels1 := complement_cancels ((sums (words block.data) 0 0).2 + (sums (words block.data) 0 0).1)
  generalize sums (words block.data) 0 0 = sum at *
  generalize complement ((sum.2 + sum.1) % maxUint32) = check1 at *
  have cancels2 := complement_cancels (sum.1 + check1)
  generalize complement ((sum.1 + check1) % maxUint32) = check2 at *
  have largest : maxUint32 = 4294967295 := rfl
  rw [u32_val] at stored
  have halves : load block.bytes 4 0 = check1 ∧ load block.bytes 4 4 = check2 := by omega
  rw [halves.1, halves.2]
  refine ⟨cancels2, ?_⟩
  show (sum.2 + (sum.1 + check1) + (sum.1 + check1 + check2)) % maxUint32 = 0
  rw [Nat.add_mod, cancels2, ← add_assoc, cancels1]
  exact Nat.zero_mod _

/-- A block of 1022 words, of which the first is 1 and the others are 0, behind its checksum. -/
def oneBlock : Block where
  bytes := encode 8 0x3FEFFFFFC00 ++ 1 :: replicate 4087 0
  large := by decide +kernel
  small := by decide +kernel
  aligned := by decide +kernel

theorem apfsFletcher64_reference_oneBlock :
    apfsBlockChecksumVerify oneBlock.bytes = true ∧ let sum := sums (words oneBlock.data ++
        [load oneBlock.bytes 4 0, load oneBlock.bytes 4 4]) 0 0
      sum.1 % maxUint32 = 0 ∧ sum.2 % maxUint32 = 0 := by
  have accepted : apfsBlockChecksumVerify oneBlock.bytes = true := by
    decide +kernel
  exact ⟨accepted, (apfsFletcher64_reference oneBlock).2.2.2 accepted⟩

end OpenCore.ApfsFletcher
