import Mathlib.Data.Nat.Bitwise
import OpenCore.VirtualMemory

/-!
The entries of page tables as the walk reads them, by level: the lowest level maps pages
of 4 KB, the next two may map large pages, and the highest one only leads to tables. The
entries the mapping writes are read back here, and the walk of the source is the walk
along these entries.
-/

namespace OpenCore.PageEntries

open TableTree VirtualMemory

section Words

theorem land_mask (value count shift : Nat) :
    value &&& (2 ^ count - 1) * 2 ^ shift = value / 2 ^ shift % 2 ^ count * 2 ^ shift := by
  rw [← Nat.shiftLeft_eq, ← Nat.shiftLeft_eq]
  apply Nat.eq_of_testBit_eq
  intro bit
  rw [Nat.testBit_and, Nat.testBit_shiftLeft, Nat.testBit_shiftLeft, Nat.testBit_two_pow_sub_one,
    Nat.testBit_mod_two_pow, Nat.testBit_div_two_pow]
  by_cases low : shift ≤ bit
  · rw [Nat.sub_add_cancel low]
    cases value.testBit bit <;> simp
  · simp [low]

theorem land_4K (value : Nat) :
    value &&& paging4KAddressMask64 = value / 4096 % 1099511627776 * 4096 :=
  land_mask value 40 12

theorem land_2M (value : Nat) :
    value &&& paging2MAddressMask64 = value / 2097152 % 2147483648 * 2097152 :=
  land_mask value 31 21

theorem land_1G (value : Nat) :
    value &&& paging1GAddressMask64 = value / 1073741824 % 4194304 * 1073741824 :=
  land_mask value 22 30

theorem lor_flags (address flags : Nat) (aligned : address % 4096 = 0) (low : flags < 4096) :
    address ||| flags = address + flags := by
  have split : address = 2 ^ 12 * (address / 4096) := by omega
  rw [split, Nat.two_pow_add_eq_or_of_lt low]

theorem small_entry (address : Nat) (aligned : address % 4096 = 0) :
    withPresent (withReadWrite address) = address + 3 := by
  rw [withPresent, withReadWrite, Nat.lor_assoc]
  exact lor_flags address 3 aligned (by decide)

theorem large_entry (address : Nat) (aligned : address % 4096 = 0) :
    withLargePage (withPresent (withReadWrite address)) = address + 131 := by
  rw [withLargePage, withPresent, withReadWrite, Nat.lor_assoc, Nat.lor_assoc]
  exact lor_flags address 131 aligned (by decide)

end Words

section Format

variable {level entry child : Nat}

def index : Nat → Nat → Nat
  | 0, va => ptOffset va
  | 1, va => pdOffset va
  | 2, va => pdpOffset va
  | _, va => pml4Offset va

def decode (level entry : Nat) : Entry Nat Nat :=
  if !present entry then .absent
  else
    match level with
    | 0 => .leaf fun va => (entry &&& paging4KAddressMask64) + va % 0x1000
    | 1 =>
      if largePage entry then .leaf fun va => (entry &&& paging2MAddressMask64) + va % 0x200000
      else .table (entry &&& paging4KAddressMask64)
    | 2 =>
      if largePage entry then .leaf fun va => (entry &&& paging1GAddressMask64) + va % 0x40000000
      else .table (entry &&& paging4KAddressMask64)
    | _ => .table (entry &&& paging4KAddressMask64)

def pageFormat : Format Nat Nat Nat where
  slots := 512
  index := index
  index_lt level address := by
    unfold index
    split <;> exact Nat.mod_lt _ (by decide)
  decode := decode

def translated (address : Nat) : Entry Nat Nat → Option Nat
  | .leaf value => some (value address)
  | _ => none

theorem decode_absent {level entry : Nat} (absent : present entry = false) :
    decode level entry = .absent := by
  simp [decode, absent]

theorem decode_table {level entry : Nat} (isPresent : present entry = true)
    (small : largePage entry = false) :
    decode (level + 1) entry = .table (entry &&& paging4KAddressMask64) := by
  match level with
  | 0 => simp [decode, isPresent, small]
  | 1 => simp [decode, isPresent, small]
  | level + 2 => simp [decode, isPresent]

theorem decode_top {entry : Nat} (isPresent : present entry = true) :
    decode 3 entry = .table (entry &&& paging4KAddressMask64) := by
  simp [decode, isPresent]

theorem decode_large (low : level < 2) (large : present entry = false ∨ largePage entry = true) :
    decode (level + 1) entry ≠ .table child := by
  intro table
  rcases large with absent | large
  · rw [decode_absent absent] at table
    cases table
  · cases isPresent : present entry with
    | false =>
      rw [decode_absent isPresent] at table
      cases table
    | true =>
      match level, low with
      | 0, _ => simp [decode, isPresent, large] at table
      | 1, _ => simp [decode, isPresent, large] at table

theorem eq_of_decode_table (table : decode level entry = .table child) :
    child = entry &&& paging4KAddressMask64 ∧ present entry = true := by
  cases isPresent : present entry with
  | false =>
    rw [decode_absent isPresent] at table
    cases table
  | true =>
    unfold decode at table
    rw [isPresent] at table
    refine ⟨?_, rfl⟩
    simp only [Bool.not_true, Bool.false_eq_true, if_false] at table
    split at table
    · cases table
    · split at table
      · cases table
      · exact (Entry.table.inj table).symm
    · split at table
      · cases table
      · exact (Entry.table.inj table).symm
    · exact (Entry.table.inj table).symm

theorem found_succ (memory : Memory) (level page va : Nat) :
    found pageFormat memory (level + 1) page va =
      match decode (level + 1) (memory page (index (level + 1) va)) with
      | .table child => found pageFormat memory level child va
      | entry => entry := by
  cases entry : decode (level + 1) (memory page (index (level + 1) va)) with
  | table child =>
    rw [found, stop_below rfl entry]
    rfl
  | absent =>
    rw [found, stop_here rfl fun child table => by cases entry.symm.trans table]
    exact entry
  | leaf value =>
    rw [found, stop_here rfl fun child table => by cases entry.symm.trans table]
    exact entry

theorem found_zero (memory : Memory) (page va : Nat) :
    found pageFormat memory 0 page va = decode 0 (memory page (ptOffset va)) := rfl

theorem ocGetPhysicalAddress_eq_found (memory : Memory) (pageTable va : Nat) :
    ocGetPhysicalAddress memory pageTable va =
      translated va (found pageFormat memory 3 pageTable va) := by
  simp only [ocGetPhysicalAddress, ocGetPageTableInfoForAddress, found_succ, found_zero, index, decode]
  cases present (memory pageTable (pml4Offset va)) with
  | false => rfl
  | true =>
    simp only [Bool.not_true, Bool.false_eq_true, if_false]
    generalize memory pageTable (pml4Offset va) &&& paging4KAddressMask64 = pdp
    cases present (memory pdp (pdpOffset va)) with
    | false => rfl
    | true =>
      simp only [Bool.not_true, Bool.false_eq_true, if_false]
      cases largePage (memory pdp (pdpOffset va)) with
      | true => rfl
      | false =>
        simp only [Bool.false_eq_true, if_false]
        generalize memory pdp (pdpOffset va) &&& paging4KAddressMask64 = pd
        cases present (memory pd (pdOffset va)) with
        | false => rfl
        | true =>
          simp only [Bool.not_true, Bool.false_eq_true, if_false]
          cases largePage (memory pd (pdOffset va)) with
          | true => rfl
          | false =>
            simp only [Bool.false_eq_true, if_false]
            generalize memory pd (pdOffset va) &&& paging4KAddressMask64 = pt
            cases present (memory pt (ptOffset va)) with
            | false => rfl
            | true => rfl

end Format

section Refills

def plain (level entry : Nat) : Prop := level = 0 ∨ level < 3 ∧ largePage entry = false

/-- The entries of a new table translate as the entry did that it replaces. Below an
entry of the highest level they map the first 512 GB. -/
structure Refills (level entry : Nat) (entries : Nat → Nat) : Prop where
  noTable : ∀ slot child, decode level (entries slot) ≠ .table child
  leaf : ∀ value, decode (level + 1) entry = .leaf value → ∀ va, ∃ small,
    decode level (entries (index level va)) = .leaf small ∧ small va = value va
  absent : decode (level + 1) entry = .absent → plain (level + 1) entry → ∀ slot,
    decode level (entries slot) = .absent ∧ plain level (entries slot)
  top : level = 2 → ∀ va, ∃ value, decode level (entries (index level va)) = .leaf value ∧
    value va = va % 549755813888

theorem present_iff {entry : Nat} : present entry = true ↔ entry % 2 = 1 := by
  rw [present, beq_iff_eq]

theorem largePage_iff {entry : Nat} : largePage entry = true ↔ entry / 128 % 2 = 1 := by
  rw [largePage, beq_iff_eq]

theorem decode_small (address : Nat) :
    decode 0 (withPresent (withReadWrite (address &&& paging4KAddressMask64))) =
      .leaf fun va => (address &&& paging4KAddressMask64) + va % 0x1000 := by
  rw [land_4K, small_entry _ (by omega)]
  have isPresent : present (address / 4096 % 1099511627776 * 4096 + 3) = true := by
    rw [present_iff]
    omega
  have same : (address / 4096 % 1099511627776 * 4096 + 3) &&& paging4KAddressMask64 =
      address / 4096 % 1099511627776 * 4096 := by
    rw [land_4K]
    omega
  simp [decode, isPresent, same]

theorem decode_tableEntry {level page : Nat} (aligned : page % 4096 = 0)
    (bounded : page < 4503599627370496) : decode (level + 1) (tableEntry page) = .table page := by
  have address : page &&& paging4KAddressMask64 = page := by
    rw [land_4K]
    omega
  rw [tableEntry, address, small_entry _ aligned]
  have isPresent : present (page + 3) = true := by
    rw [present_iff]
    omega
  have isSmall : largePage (page + 3) = false := by
    rw [Bool.eq_false_iff, ne_eq, largePage_iff]
    omega
  have same : (page + 3) &&& paging4KAddressMask64 = page := by
    rw [land_4K]
    omega
  unfold decode
  simp only [isPresent, isSmall, same, Bool.not_true, Bool.false_eq_true, if_false]
  split <;> simp_all

theorem decode_2M (address : Nat) :
    decode 1 (withLargePage (withPresent (withReadWrite (address &&& paging2MAddressMask64)))) =
      .leaf fun va => (address &&& paging2MAddressMask64) + va % 0x200000 := by
  rw [land_2M, large_entry _ (by omega)]
  have isPresent : present (address / 2097152 % 2147483648 * 2097152 + 131) = true := by
    rw [present_iff]
    omega
  have isLarge : largePage (address / 2097152 % 2147483648 * 2097152 + 131) = true := by
    rw [largePage_iff]
    omega
  have same : (address / 2097152 % 2147483648 * 2097152 + 131) &&& paging2MAddressMask64 =
      address / 2097152 % 2147483648 * 2097152 := by
    rw [land_2M]
    omega
  simp [decode, isPresent, isLarge, same]

theorem decode_1G (address : Nat) :
    decode 2 (withLargePage (withPresent (withReadWrite (address &&& paging1GAddressMask64)))) =
      .leaf fun va => (address &&& paging1GAddressMask64) + va % 0x40000000 := by
  rw [land_1G, large_entry _ (by omega)]
  have isPresent : present (address / 1073741824 % 4194304 * 1073741824 + 131) = true := by
    rw [present_iff]
    omega
  have isLarge : largePage (address / 1073741824 % 4194304 * 1073741824 + 131) = true := by
    rw [largePage_iff]
    omega
  have same : (address / 1073741824 % 4194304 * 1073741824 + 131) &&& paging1GAddressMask64 =
      address / 1073741824 % 4194304 * 1073741824 := by
    rw [land_1G]
    omega
  simp [decode, isPresent, isLarge, same]

theorem zero_refills (level : Nat) : decode level 0 = .absent := decode_absent rfl

theorem refills_pdp (entry : Nat) (unmapped : present entry = false) : Refills 2 entry entries1G where
  noTable slot child table := by
    rw [entries1G, decode_1G] at table
    cases table
  leaf value leaf := by
    rw [decode_absent unmapped] at leaf
    cases leaf
  absent _ isPlain := by
    rcases isPlain with zero | ⟨low, _⟩
    · cases zero
    · exact absurd low (by decide)
  top _ va := by
    rw [entries1G]
    refine ⟨_, decode_1G _, ?_⟩
    simp only [land_1G, base1GB, index, pdpOffset]
    omega

theorem refills_pd (entry : Nat) :
    Refills 1 entry (if largePage entry then entries2M entry else fun _ => 0) where
  noTable slot child table := by
    split at table
    · rw [entries2M, decode_2M] at table
      cases table
    · rw [zero_refills] at table
      cases table
  leaf value leaf va := by
    by_cases isPresent : present entry = true
    · by_cases large : largePage entry = true
      · rw [if_pos large, entries2M]
        refine ⟨_, decode_2M _, ?_⟩
        simp only [decode, isPresent, large, Bool.not_true, Bool.false_eq_true, if_false, if_true,
          Entry.leaf.injEq] at leaf
        rw [← leaf]
        simp only [land_2M, land_1G, base2MB, index, pdOffset]
        omega
      · simp [decode, isPresent, large] at leaf
    · rw [decode_absent (Bool.eq_false_of_not_eq_true isPresent)] at leaf
      cases leaf
  absent absent isPlain slot := by
    rcases isPlain with zero | ⟨_, small⟩
    · cases zero
    · rw [small, if_neg Bool.false_ne_true]
      exact ⟨zero_refills 1, .inr ⟨by decide, rfl⟩⟩
  top top := absurd top (by decide)

theorem refills_pt (entry : Nat) :
    Refills 0 entry (if largePage entry then entries4K entry else fun _ => 0) where
  noTable slot child table := by
    split at table
    · rw [entries4K, decode_small] at table
      cases table
    · rw [zero_refills] at table
      cases table
  leaf value leaf va := by
    by_cases isPresent : present entry = true
    · by_cases large : largePage entry = true
      · rw [if_pos large, entries4K]
        refine ⟨_, decode_small _, ?_⟩
        simp only [decode, isPresent, large, Bool.not_true, Bool.false_eq_true, if_false, if_true,
          Entry.leaf.injEq] at leaf
        rw [← leaf]
        simp only [land_4K, land_2M, base4KB, index, ptOffset]
        omega
      · simp [decode, isPresent, large] at leaf
    · rw [decode_absent (Bool.eq_false_of_not_eq_true isPresent)] at leaf
      cases leaf
  absent absent isPlain slot := by
    rcases isPlain with zero | ⟨_, small⟩
    · cases zero
    · rw [small, if_neg Bool.false_ne_true]
      exact ⟨zero_refills 0, .inl rfl⟩
  top top := absurd top (by decide)

end Refills

end OpenCore.PageEntries
