import OpenCore.PageMapping

/-!
Mapping a range of pages. The first entry of the highest table is compared with the one of
the range, so it must not hold the address of a table by accident.
-/

namespace OpenCore.PageRange

open Base TableTree VirtualMemory PageEntries PageMapping

def Canonical (va : Nat) : Prop := va < 140737488355328 ∨ 18446603336221196288 ≤ va ∧ va < u64

def tablePage (va : Nat) : Nat := va / 4096 % 68719476736

section Paths

theorem samePath_iff (va other : Nat) : SamePath 3 va other ↔ tablePage other = tablePage va := by
  constructor
  · intro path
    have pt : ptOffset other = ptOffset va := path 0 (by decide)
    have pd : pdOffset other = pdOffset va := path 1 (by decide)
    have pdp : pdpOffset other = pdpOffset va := path 2 (by decide)
    have pml4 : pml4Offset other = pml4Offset va := path 3 (by decide)
    simp only [ptOffset, pdOffset, pdpOffset, pml4Offset, tablePage] at *
    omega
  · intro same lower le
    simp only [tablePage] at same
    have level : lower = 0 ∨ lower = 1 ∨ lower = 2 ∨ lower = 3 := by omega
    rcases level with rfl | rfl | rfl | rfl
    · show ptOffset other = ptOffset va
      simp only [ptOffset]
      omega
    · show pdOffset other = pdOffset va
      simp only [pdOffset]
      omega
    · show pdpOffset other = pdpOffset va
      simp only [pdpOffset]
      omega
    · show pml4Offset other = pml4Offset va
      simp only [pml4Offset]
      omega

theorem page_eq_of_canonical {va other : Nat} (canonical : Canonical va) (otherCanonical : Canonical other)
    (same : tablePage other = tablePage va) : other / 4096 = va / 4096 := by
  simp only [Canonical, tablePage, u64_val] at *
  omega

end Paths

section Tables
variable {state next : Mapping} {root : Nat}

/-- Page tables without shared tables, apart from the pool. A first entry that is not
present holds no address of either. -/
structure PageTables (state : Mapping) (root : Nat) : Prop where
  ready : Ready state 3 root
  first : present (state.memory root 0) = true ∨
    ¬ Owns pageFormat state.memory 3 root (state.memory root 0 &&& paging4KAddressMask64) ∧
      ¬ InPool state.context (state.memory root 0 &&& paging4KAddressMask64)

theorem clearAliased_eq (tables : PageTables state root) (slot : Nat) (inside : slot < 512) :
    clearAliased root slot state.memory = state.memory := by
  rw [clearAliased, if_neg]
  rintro ⟨nonzero, isPresent, aliased⟩
  have entry := decode_top isPresent
  rw [← aliased] at entry
  rcases tables.first with firstPresent | ⟨unowned, _⟩
  · have firstEntry := decode_top firstPresent
    have siblings := (tables.ready.unshared slot inside _ entry).2.2
    exact nonzero (siblings 0 (by decide) _ firstEntry _ owns_root owns_root)
  · exact unowned (.inr ⟨slot, inside, _, entry, owns_root⟩)

theorem PageTables.touched (tables : PageTables state root) (touched : Touched state next 3 root) :
    PageTables next root where
  ready := touched.changed.ready tables.ready
  first := by
    rcases touched.entries 0 with same | isPresent
    · rw [same]
      rcases tables.first with firstPresent | ⟨unowned, unpooled⟩
      · exact .inl firstPresent
      · refine .inr ⟨?_, fun pooled => unpooled (touched.changed.shrinks _ pooled)⟩
        intro owns
        rcases touched.changed.owned _ owns with before | ⟨pooled, _⟩
        · exact unowned before
        · exact unpooled pooled
    · exact .inl isPresent

theorem vmMapVirtualPage_maps {va pa : Nat} (tables : PageTables state root)
    (aligned : pa % 4096 = 0) (bounded : pa < 4503599627370496) :
    Maps state 3 root va pa (vmMapVirtualPage root va pa state) := by
  rw [vmMapVirtualPage_eq_mapFrom, clearAliased_eq tables (pml4Offset va) (Nat.mod_lt _ (by decide))]
  exact mapFrom_maps (le_refl _) tables.ready aligned bounded

end Tables

section Range
variable {state : Mapping} {root numPages va pa : Nat}

/-- Every address of the range is mapped and all others keep what they had, or the mapping
fails and these keep it. -/
def MapsRange (state : Mapping) (root numPages va pa : Nat) : Except Mapping Mapping → Prop
  | .error stopped => ∀ other,
      (∀ count < numPages, tablePage other ≠ tablePage (va + count * 4096)) →
        Kept other (stop pageFormat state.memory 3 root other)
          (stop pageFormat stopped.memory 3 root other)
  | .ok next =>
    (∀ count < numPages, ∀ other, tablePage other = tablePage (va + count * 4096) → ∃ value,
      found pageFormat next.memory 3 root other = .leaf value ∧
        value other = pa + count * 4096 + other % 4096) ∧
    ∀ other, (∀ count < numPages, tablePage other ≠ tablePage (va + count * 4096)) →
      Kept other (stop pageFormat state.memory 3 root other)
        (stop pageFormat next.memory 3 root other)

theorem tablePage_succ (count : Nat) :
    tablePage ((va + base4KB) % u64 + count * 4096) = tablePage (va + (count + 1) * 4096) := by
  simp only [tablePage, base4KB, u64_val]
  omega

theorem vmMapVirtualPages_maps (tables : PageTables state root) (vaAligned : va % 4096 = 0)
    (few : numPages ≤ 68719476736) (paAligned : pa % 4096 = 0)
    (bounded : pa + numPages * 4096 ≤ 4503599627370496) :
    MapsRange state root numPages va pa (vmMapVirtualPages root numPages va pa state) := by
  induction numPages generalizing state va pa with
  | zero => exact ⟨fun _ none => absurd none (Nat.not_lt_zero _), fun _ _ => Kept.refl⟩
  | succ numPages ih =>
    have maps : Maps state 3 root va pa (vmMapVirtualPage root va pa state) :=
      vmMapVirtualPage_maps tables paAligned (by omega)
    rw [vmMapVirtualPages]
    cases mapped : vmMapVirtualPage root va pa state with
    | error stopped =>
      rw [mapped] at maps
      exact fun other _ => maps.2 other
    | ok next =>
      rw [mapped] at maps
      obtain ⟨touched, here, kept⟩ := maps
      have physical : (pa + base4KB) % u64 = pa + 4096 := by
        simp only [base4KB, u64_val]
        omega
      have run : MapsRange next root numPages ((va + base4KB) % u64) ((pa + base4KB) % u64) _ :=
        ih (tables.touched touched) (by simp only [base4KB, u64_val]; omega) (by omega)
          (by rw [physical]; omega) (by rw [physical]; omega)
      dsimp only
      -- An address of another page than the first keeps what it had over the first step.
      have before : ∀ other, (∀ count < numPages + 1, tablePage other ≠ tablePage (va + count * 4096)) →
          Kept other (stop pageFormat state.memory 3 root other)
              (stop pageFormat next.memory 3 root other) ∧
            ∀ count < numPages, tablePage other ≠ tablePage ((va + base4KB) % u64 + count * 4096) := by
        intro other apart
        constructor
        · apply kept
          rw [samePath_iff]
          exact apart 0 (Nat.succ_pos _)
        · intro count less
          rw [tablePage_succ]
          exact apart (count + 1) (Nat.succ_lt_succ less)
      cases result : vmMapVirtualPages root numPages ((va + base4KB) % u64)
          ((pa + base4KB) % u64) next with
      | error stopped =>
        rw [result] at run
        intro other apart
        obtain ⟨first, later⟩ := before other apart
        exact first.trans (run other later)
      | ok final =>
        rw [result] at run
        obtain ⟨mappedLater, keptLater⟩ := run
        constructor
        · intro count less other same
          cases count with
          | zero =>
            obtain ⟨value, leaf, target⟩ := here other ((samePath_iff va other).mpr same)
            -- The pages that follow are others, as there are fewer than the tables hold.
            have apart : ∀ count < numPages,
                tablePage other ≠ tablePage ((va + base4KB) % u64 + count * 4096) := by
              intro count less
              rw [tablePage_succ, same]
              simp only [tablePage]
              omega
            obtain ⟨last, lastLeaf, again⟩ := (keptLater other apart).leaf value leaf
            exact ⟨last, lastLeaf, by rw [again, target]; omega⟩
          | succ count =>
            rw [← tablePage_succ] at same
            obtain ⟨value, leaf, target⟩ :=
              mappedLater count (Nat.lt_of_succ_lt_succ less) other same
            exact ⟨value, leaf, by rw [target, physical]; omega⟩
        · intro other apart
          obtain ⟨first, later⟩ := before other apart
          exact first.trans (keptLater other later)

theorem count_of_canonical (vaAligned : va % 4096 = 0) (vaBounded : va < u64)
    (canonical : ∀ count < numPages, Canonical ((va + count * 4096) % u64)) :
    numPages ≤ 68719476736 := by
  by_contra many
  have middle : ¬ Canonical (140737488355328 % u64) := by
    simp only [Canonical, u64_val]
    omega
  have first := canonical 0 (by omega)
  rw [zero_mul, add_zero, Nat.mod_eq_of_lt vaBounded] at first
  -- From either half the range would reach the first address that is not canonical.
  rcases first with low | ⟨high, _⟩
  · have reached := canonical ((140737488355328 - va) / 4096) (by omega)
    have sum : va + (140737488355328 - va) / 4096 * 4096 = 140737488355328 := by omega
    rw [sum] at reached
    exact middle reached
  · rw [u64_val] at vaBounded
    have reached := canonical ((18446884811197906944 - va) / 4096) (by omega)
    have sum : va + (18446884811197906944 - va) / 4096 * 4096 = u64 + 140737488355328 := by
      rw [u64_val]
      omega
    rw [sum, Nat.add_mod_left] at reached
    exact middle reached

end Range

section Translations

variable {memory : Memory}

def InRange (numPages va other : Nat) : Prop :=
  ∃ count < numPages, other / 4096 * 4096 = (va + count * 4096) % u64

/-- An address without a translation whose walk ends below the highest level at an entry
that is not marked as a large page. -/
def Vacant (memory : Memory) (root va : Nat) : Prop :=
  found pageFormat memory 3 root va = .absent ∧
    plain (stop pageFormat memory 3 root va).1 (stop pageFormat memory 3 root va).2

structure Preserves (memory after : Memory) (root numPages va : Nat) : Prop where
  translated : ∀ other, Canonical other → ¬ InRange numPages va other → ∀ physical,
    ocGetPhysicalAddress memory root other = some physical →
      ocGetPhysicalAddress after root other = some physical
  vacant : ∀ other, Canonical other → ¬ InRange numPages va other → Vacant memory root other →
    ocGetPhysicalAddress after root other = none
  unmapped : ∀ other, Canonical other → ¬ InRange numPages va other →
    present (memory root (pml4Offset other)) = false →
      ocGetPhysicalAddress after root other = none ∨
        ocGetPhysicalAddress after root other = some (other % 549755813888)

theorem translated_of_leaf {root va : Nat} {value : Nat → Nat}
    (leaf : found pageFormat memory 3 root va = .leaf value) :
    ocGetPhysicalAddress memory root va = some (value va) := by
  rw [ocGetPhysicalAddress_eq_found, leaf]
  rfl

theorem none_of_absent {root va : Nat} (absent : found pageFormat memory 3 root va = .absent) :
    ocGetPhysicalAddress memory root va = none := by
  rw [ocGetPhysicalAddress_eq_found, absent]
  rfl

theorem leaf_of_translated {root va physical : Nat}
    (translates : ocGetPhysicalAddress memory root va = some physical) :
    ∃ value, found pageFormat memory 3 root va = .leaf value ∧ value va = physical := by
  rw [ocGetPhysicalAddress_eq_found] at translates
  cases entry : found pageFormat memory 3 root va with
  | leaf value =>
    rw [entry] at translates
    exact ⟨value, rfl, Option.some.inj translates⟩
  | absent =>
    rw [entry] at translates
    cases translates
  | table child =>
    rw [entry] at translates
    cases translates

theorem preserves_of_kept {memory after : Memory} {root numPages va : Nat}
    (kept : ∀ other, Canonical other → ¬ InRange numPages va other →
      Kept other (stop pageFormat memory 3 root other) (stop pageFormat after 3 root other)) :
    Preserves memory after root numPages va where
  translated other canonical outside physical translates := by
    obtain ⟨value, leaf, target⟩ := leaf_of_translated translates
    obtain ⟨last, lastLeaf, same⟩ := (kept other canonical outside).leaf value leaf
    rw [translated_of_leaf lastLeaf, same, target]
  vacant other canonical outside isVacant :=
    none_of_absent ((kept other canonical outside).absent isVacant.1 isVacant.2).1
  unmapped other canonical outside missing := by
    have absent : decode 3 (memory root (pml4Offset other)) = .absent := decode_absent missing
    have stopped : stop pageFormat memory 3 root other = (3, memory root (pml4Offset other)) := by
      apply stop_here rfl
      intro child table
      cases absent.symm.trans table
    have top := (kept other canonical outside).top
    rw [stopped] at top
    rcases top rfl absent with same | ⟨value, leaf, offset⟩
    · left
      apply none_of_absent
      rw [found, same]
      exact absent
    · right
      rw [translated_of_leaf leaf, offset]

/-- After a mapping that succeeds the pages of the range have their translations; whether it
succeeds or not, the other canonical addresses keep theirs. -/
def Remaps (state : Mapping) (root numPages va pa : Nat) : Except Mapping Mapping → Prop
  | .error stopped => Preserves state.memory stopped.memory root numPages va
  | .ok next =>
    (∀ count < numPages, ∀ offset < 4096,
      ocGetPhysicalAddress next.memory root ((va + count * 4096 + offset) % u64) =
        some (pa + count * 4096 + offset)) ∧
    Preserves state.memory next.memory root numPages va

theorem vmMapVirtualPages_remaps {state : Mapping} {root numPages va pa : Nat}
    (tables : PageTables state root) (vaAligned : va % 4096 = 0) (vaBounded : va < u64)
    (canonical : ∀ count < numPages, Canonical ((va + count * 4096) % u64))
    (paAligned : pa % 4096 = 0) (paBounded : pa + numPages * 4096 ≤ 4503599627370496) :
    Remaps state root numPages va pa (vmMapVirtualPages root numPages va pa state) := by
  have maps := vmMapVirtualPages_maps tables vaAligned
    (count_of_canonical vaAligned vaBounded canonical) paAligned paBounded
  have apart : ∀ other, Canonical other → ¬ InRange numPages va other →
      ∀ count < numPages, tablePage other ≠ tablePage (va + count * 4096) := by
    intro other otherCanonical outside count less same
    have samePage : tablePage other = tablePage ((va + count * 4096) % u64) := by
      rw [same]
      simp only [tablePage, u64_val]
      omega
    have page := page_eq_of_canonical (canonical count less) otherCanonical samePage
    refine outside ⟨count, less, ?_⟩
    rw [page]
    rw [u64_val]
    omega
  cases result : vmMapVirtualPages root numPages va pa state with
  | error stopped =>
    rw [result] at maps
    exact preserves_of_kept fun other otherCanonical outside =>
      maps other (apart other otherCanonical outside)
  | ok next =>
    rw [result] at maps
    refine ⟨?_, preserves_of_kept fun other otherCanonical outside =>
      maps.2 other (apart other otherCanonical outside)⟩
    intro count less offset small
    obtain ⟨value, leaf, target⟩ := maps.1 count less ((va + count * 4096 + offset) % u64) (by
      simp only [tablePage, u64_val]
      omega)
    rw [translated_of_leaf leaf, target]
    congr 2
    rw [u64_val]
    omega

end Translations

section Empty

def emptyTables : Mapping := ⟨fun _ _ => 0, ⟨0x100000, 10⟩⟩

theorem emptyTables_tables : PageTables emptyTables 0x1000 := by
  have flat : ∀ slot < pageFormat.slots, ∀ child,
      pageFormat.decode 3 (emptyTables.memory 0x1000 slot) ≠ .table child := by
    intro slot _ child table
    cases (zero_refills 3).symm.trans table
  have unpooled : ∀ page < 0x100000, ¬ InPool emptyTables.context page := by
    rintro page low ⟨count, _, rfl⟩
    simp only [emptyTables] at low
    omega
  refine ⟨⟨unshared_of_flat flat, ?_, ⟨by decide, by decide⟩⟩, .inr ⟨?_, unpooled _ (by decide)⟩⟩
  · intro owned owns
    rw [owns_of_flat flat owns]
    exact unpooled _ (by decide)
  · intro owns
    exact absurd (owns_of_flat flat owns) (by decide)

/-- Two pages are mapped beside one that is mapped already, in the same tables. -/
theorem emptyTables_remaps : ∃ first,
    vmMapVirtualPage 0x1000 0x8000000000 0x200000 emptyTables = .ok first ∧
      ocGetPhysicalAddress first.memory 0x1000 0x8000000010 = some 0x200010 ∧
      Remaps first 0x1000 2 0x8000400000 0x600000
        (vmMapVirtualPages 0x1000 2 0x8000400000 0x600000 first) := by
  have maps := @vmMapVirtualPage_maps emptyTables 0x1000 0x8000000000 0x200000 emptyTables_tables
    (by decide) (by decide)
  have probe : ((vmMapVirtualPage 0x1000 0x8000000000 0x200000 emptyTables).toOption.bind fun next =>
      ocGetPhysicalAddress next.memory 0x1000 0x8000000010) = some 0x200010 := by
    decide
  cases mapped : vmMapVirtualPage 0x1000 0x8000000000 0x200000 emptyTables with
  | error stopped =>
    rw [mapped] at probe
    cases probe
  | ok first =>
    rw [mapped] at maps probe
    refine ⟨first, rfl, probe, ?_⟩
    refine vmMapVirtualPages_remaps (emptyTables_tables.touched maps.1) (by decide) (by decide) ?_
      (by decide) (by decide)
    intro count less
    left
    rw [u64_val]
    omega

def afterMapping (va pa other : Nat) : Option Nat :=
  (vmMapVirtualPages 0x1000 1 va pa emptyTables).toOption.bind fun next =>
    ocGetPhysicalAddress next.memory 0x1000 other

/-- With one page the whole 512 GB around it is mapped; an address that is not canonical
maps the canonical one with the same lower bits; a physical address loses its bits from 52
on. -/
theorem emptyTables_others_mapped :
    PageTables emptyTables 0x1000 ∧
      (¬ InRange 1 0x8000000000 0x8000001000 ∧ Canonical 0x8000001000 ∧
        ocGetPhysicalAddress emptyTables.memory 0x1000 0x8000001000 = none ∧
        afterMapping 0x8000000000 0x200000 0x8000001000 = some 0x1000) ∧
      (¬ InRange 1 0x800000000000 0xFFFF800000000000 ∧ Canonical 0xFFFF800000000000 ∧
        ocGetPhysicalAddress emptyTables.memory 0x1000 0xFFFF800000000000 = none ∧
        afterMapping 0x800000000000 0x200000 0xFFFF800000000000 = some 0x200000) ∧
      afterMapping 0x8000000000 0x10000000000000 0x8000000000 = some 0 := by
  refine ⟨emptyTables_tables, ⟨?_, .inl (by decide), by decide, by decide⟩,
    ⟨?_, .inr (by decide), by decide, by decide⟩, by decide⟩
  · rintro ⟨count, less, same⟩
    rw [u64_val] at same
    omega
  · rintro ⟨count, less, same⟩
    rw [u64_val] at same
    omega

end Empty

end OpenCore.PageRange
