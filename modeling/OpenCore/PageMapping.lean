import OpenCore.PageEntries

/-!
Mapping one page. On the way down, an entry without a table gets a fresh one that
translates as the entry did; at the lowest level one entry is written. A change of the
memory is described by what it touches, and each address by the entry its walk ends at
before and after.
-/

namespace OpenCore.PageMapping

open TableTree VirtualMemory PageEntries

section Pool

def InPool (context : VmemContext) (page : Nat) : Prop :=
  ∃ count < context.freePages, page = context.memoryPool + count * 4096

structure ValidPool (context : VmemContext) : Prop where
  aligned : context.memoryPool % 4096 = 0
  bounded : context.memoryPool + context.freePages * 4096 ≤ 4503599627370496

theorem InPool.aligned {context : VmemContext} {page : Nat} (valid : ValidPool context)
    (inPool : InPool context page) : page % 4096 = 0 ∧ page < 4503599627370496 := by
  obtain ⟨count, less, rfl⟩ := inPool
  have aligned := valid.aligned
  have bounded := valid.bounded
  constructor <;> omega

theorem vmAllocatePages_spec (context : VmemContext) (valid : ValidPool context) :
    ValidPool (vmAllocatePages context 1).2 ∧
      (∀ page, InPool (vmAllocatePages context 1).2 page → InPool context page) ∧
      ((vmAllocatePages context 1).1 ≠ 0 → InPool context (vmAllocatePages context 1).1 ∧
          ¬ InPool (vmAllocatePages context 1).2 (vmAllocatePages context 1).1) := by
  have aligned := valid.aligned
  have bounded := valid.bounded
  rw [vmAllocatePages]
  split
  · rename_i enough
    dsimp only [base4KB]
    refine ⟨⟨?_, ?_⟩, ?_, ?_⟩
    · dsimp only
      omega
    · dsimp only
      omega
    · rintro page ⟨count, less, rfl⟩
      dsimp only at less ⊢
      exact ⟨count + 1, by omega, by omega⟩
    · intro _
      refine ⟨⟨0, by omega, by omega⟩, ?_⟩
      rintro ⟨count, less, same⟩
      dsimp only at less same
      omega
  · exact ⟨valid, fun _ inPool => inPool, fun nonzero => absurd rfl nonzero⟩

end Pool

section Changes
variable {state next final : Mapping} {level page : Nat}

def Fresh (state : Mapping) (level page : Nat) : Prop :=
  ∀ owned, Owns pageFormat state.memory level page owned → ¬ InPool state.context owned

structure Ready (state : Mapping) (level page : Nat) : Prop where
  unshared : Unshared pageFormat state.memory level page
  fresh : Fresh state level page
  pool : ValidPool state.context

structure Changed (state next : Mapping) (level page : Nat) : Prop where
  frame : ∀ other, ¬ Owns pageFormat state.memory level page other →
    ¬ InPool state.context other → next.memory other = state.memory other
  owned : ∀ other, Owns pageFormat next.memory level page other →
    Owns pageFormat state.memory level page other ∨
      InPool state.context other ∧ ¬ InPool next.context other
  unshared : Unshared pageFormat next.memory level page
  shrinks : ∀ other, InPool next.context other → InPool state.context other
  pool : ValidPool next.context

theorem Changed.ready (changed : Changed state next level page) (ready : Ready state level page) :
    Ready next level page where
  unshared := changed.unshared
  fresh owned owns inPool := by
    rcases changed.owned owned owns with before | ⟨_, taken⟩
    · exact ready.fresh owned before (changed.shrinks owned inPool)
    · exact taken inPool
  pool := changed.pool

theorem Changed.refl (ready : Ready state level page) : Changed state state level page where
  frame _ _ _ := rfl
  owned _ owns := .inl owns
  unshared := ready.unshared
  shrinks _ inPool := inPool
  pool := ready.pool

theorem Changed.trans (first : Changed state next level page)
    (second : Changed next final level page) : Changed state final level page where
  frame other apart unpooled := by
    have nextApart : ¬ Owns pageFormat next.memory level page other := by
      intro owns
      rcases first.owned other owns with before | ⟨pooled, _⟩
      · exact apart before
      · exact unpooled pooled
    have nextUnpooled : ¬ InPool next.context other :=
      fun pooled => unpooled (first.shrinks other pooled)
    rw [second.frame other nextApart nextUnpooled, first.frame other apart unpooled]
  owned other owns := by
    rcases second.owned other owns with middle | ⟨pooled, taken⟩
    · rcases first.owned other middle with before | ⟨pooled, taken⟩
      · exact .inl before
      · exact .inr ⟨pooled, fun again => taken (second.shrinks other again)⟩
    · exact .inr ⟨first.shrinks other pooled, taken⟩
  unshared := second.unshared
  shrinks other inPool := first.shrinks other (second.shrinks other inPool)
  pool := second.pool

/-- What an address keeps: its translation, or that its walk ends at a plain entry. Where the
highest level had no entry, it may get the translation to its offset in the 512 GB. -/
structure Kept (va : Nat) (before after : Nat × Nat) : Prop where
  leaf : ∀ value, decode before.1 before.2 = .leaf value →
    ∃ other, decode after.1 after.2 = .leaf other ∧ other va = value va
  absent : decode before.1 before.2 = .absent → plain before.1 before.2 →
    decode after.1 after.2 = .absent ∧ plain after.1 after.2
  top : before.1 = 3 → decode before.1 before.2 = .absent → after = before ∨
    ∃ value, decode after.1 after.2 = .leaf value ∧ value va = va % 549755813888

theorem Kept.refl {va : Nat} {entry : Nat × Nat} : Kept va entry entry where
  leaf value leaf := ⟨value, leaf, rfl⟩
  absent absent isPlain := ⟨absent, isPlain⟩
  top _ _ := .inl rfl

theorem Kept.trans {va : Nat} {before middle after : Nat × Nat} (first : Kept va before middle)
    (second : Kept va middle after) : Kept va before after where
  leaf value leaf := by
    obtain ⟨other, otherLeaf, same⟩ := first.leaf value leaf
    obtain ⟨last, lastLeaf, again⟩ := second.leaf other otherLeaf
    exact ⟨last, lastLeaf, again.trans same⟩
  absent absent isPlain := by
    obtain ⟨middleAbsent, middlePlain⟩ := first.absent absent isPlain
    exact second.absent middleAbsent middlePlain
  top highest absent := by
    rcases first.top highest absent with rfl | ⟨value, leaf, offset⟩
    · exact second.top highest absent
    · obtain ⟨other, otherLeaf, same⟩ := second.leaf value leaf
      exact .inr ⟨other, otherLeaf, same.trans offset⟩

end Changes

section NewTable
variable {state next : Mapping} {level page slot : Nat}

structure Descended (state next : Mapping) (level page slot : Nat) : Prop where
  changed : Changed state next (level + 1) page
  kept : ∀ va, Kept va (stop pageFormat state.memory (level + 1) page va)
    (stop pageFormat next.memory (level + 1) page va)
  table : ∃ child, decode (level + 1) (next.memory page slot) = .table child
  entries : ∀ other, next.memory page other = state.memory page other ∨
    present (next.memory page other) = true

def replacedMemory (memory : Memory) (page slot fresh : Nat) (entries : Nat → Nat) : Memory :=
  (fillPage memory fresh entries).set page slot (tableEntry fresh)

section
variable {memory : Memory} {fresh : Nat} {entries : Nat → Nat}

theorem replacedMemory_fresh (different : page ≠ fresh) (index : Nat) :
    replacedMemory memory page slot fresh entries fresh index = entries index := by
  rw [replacedMemory, Memory.set_page different.symm]
  exact if_pos rfl

theorem replacedMemory_slot : replacedMemory memory page slot fresh entries page slot = tableEntry fresh :=
  Memory.set_same _ _ _ _

theorem replacedMemory_beside {other : Nat} (different : page ≠ fresh) (beside : other ≠ slot) :
    replacedMemory memory page slot fresh entries page other = memory page other := by
  rw [replacedMemory, Memory.set_slot beside]
  exact if_neg different

theorem replacedMemory_elsewhere {other : Nat} (unfresh : other ≠ fresh) (beside : other ≠ page) :
    replacedMemory memory page slot fresh entries other = memory other := by
  rw [replacedMemory, Memory.set_page beside]
  funext index
  exact if_neg unfresh

section

variable (unshared : Unshared pageFormat memory (level + 1) page)
  (unowned : ¬ Owns pageFormat memory (level + 1) page fresh) (inside : slot < 512)
  (aligned : fresh % 4096 = 0) (bounded : fresh < 4503599627370496)
include unshared unowned inside aligned bounded

theorem replaced (refills : Refills level (memory page slot) entries) :
    Replaced pageFormat memory (replacedMemory memory page slot fresh entries) level page slot fresh
      (· = fresh) := by
  have different : page ≠ fresh := by
    rintro rfl
    exact unowned owns_root
  have flat : ∀ index < pageFormat.slots, ∀ child, pageFormat.decode level
      (replacedMemory memory page slot fresh entries fresh index) ≠ .table child := by
    intro index _ child
    rw [replacedMemory_fresh different]
    exact refills.noTable index child
  constructor
  · exact inside
  · rw [replacedMemory_slot]
    exact decode_tableEntry aligned bounded
  · intro other _ beside
    exact replacedMemory_beside different beside
  · intro other otherInside beside sibling entry owned owns index _
    have below : Owns pageFormat memory (level + 1) page owned :=
      .inr ⟨other, otherInside, sibling, entry, owns⟩
    rw [replacedMemory_elsewhere]
    · rintro rfl
      exact unowned below
    · rintro rfl
      exact (unshared other otherInside sibling entry).2.1 owns
  · exact unshared_of_flat flat
  · exact fun owned owns => .inl (owns_of_flat flat owns)
  · rintro owned owns rfl
    exact unowned owns

theorem replaced_kept (noTable : ∀ child, decode (level + 1) (memory page slot) ≠ .table child)
    (refills : Refills level (memory page slot) entries) (va : Nat) :
    Kept va (stop pageFormat memory (level + 1) page va)
      (stop pageFormat (replacedMemory memory page slot fresh entries) (level + 1) page va) := by
  have replaced := replaced unshared unowned inside aligned bounded refills
  have different : page ≠ fresh := by
    rintro rfl
    exact unowned owns_root
  have flat : ∀ index < pageFormat.slots, ∀ child, pageFormat.decode level
      (replacedMemory memory page slot fresh entries fresh index) ≠ .table child := by
    intro index _ child
    rw [replacedMemory_fresh different]
    exact refills.noTable index child
  by_cases same : index (level + 1) va = slot
  · rw [stop_here same noTable, stop_below same replaced.entry, stop_of_flat flat,
      replacedMemory_fresh different]
    exact ⟨fun value leaf => refills.leaf value leaf va,
      fun absent isPlain => refills.absent absent isPlain _,
      fun highest _ => .inr (refills.top (Nat.succ.inj highest) va)⟩
  · rw [replaced.stop_beside same]
    exact Kept.refl

end

end

def Descends (state : Mapping) (level page slot : Nat) : Except Mapping Mapping → Prop
  | .error stopped => stopped.memory = state.memory ∧ Changed state stopped (level + 1) page
  | .ok next => Descended state next level page slot

theorem newTable_descends {entries : Nat → Nat → Nat} (ready : Ready state (level + 1) page)
    (inside : slot < 512)
    (noTable : ∀ child, decode (level + 1) (state.memory page slot) ≠ .table child)
    (refills : Refills level (state.memory page slot) (entries (state.memory page slot))) :
    Descends state level page slot (newTable page slot entries state) := by
  obtain ⟨pool, shrinks, taken⟩ := vmAllocatePages_spec state.context ready.pool
  rw [newTable]
  generalize vmAllocatePages state.context 1 = allocation at pool shrinks taken
  obtain ⟨fresh, context⟩ := allocation
  dsimp only at pool shrinks taken ⊢
  split
  · refine ⟨rfl, ?_⟩
    exact ⟨fun _ _ _ => rfl, fun _ owns => .inl owns, ready.unshared, shrinks, pool⟩
  · rename_i nonzero
    obtain ⟨pooled, gone⟩ := taken nonzero
    obtain ⟨aligned, bounded⟩ := pooled.aligned ready.pool
    have unowned : ¬ Owns pageFormat state.memory (level + 1) page fresh :=
      fun owns => ready.fresh fresh owns pooled
    have different : page ≠ fresh := by
      rintro rfl
      exact unowned owns_root
    have word : fillPage state.memory fresh (fun _ => 0) page slot = state.memory page slot :=
      if_neg different
    have filled : fillPage (fillPage state.memory fresh fun _ => 0) fresh
        (entries (state.memory page slot)) =
          fillPage state.memory fresh (entries (state.memory page slot)) := by
      funext place index
      unfold fillPage
      split <;> rfl
    rw [word, filled]
    have replaced := replaced ready.unshared unowned inside aligned bounded refills
    refine ⟨⟨?_, ?_, replaced.unshared_after ready.unshared, shrinks, pool⟩, ?_, ⟨fresh, replaced.entry⟩,
      ?_⟩
    · intro other apart unpooled
      apply replacedMemory_elsewhere
      · rintro rfl
        exact unpooled pooled
      · rintro rfl
        exact apart owns_root
    · intro other owns
      rcases replaced.owns owns with before | rfl
      · exact .inl before
      · exact .inr ⟨pooled, gone⟩
    · exact replaced_kept ready.unshared unowned inside aligned bounded noTable refills
    · intro other
      by_cases same : other = slot
      · right
        show present (replacedMemory state.memory page slot fresh _ page other) = true
        rw [same, replacedMemory_slot, tableEntry, land_4K, small_entry _ (by omega), present_iff]
        omega
      · exact .inl (replacedMemory_beside different same)

def ensure : Nat → Nat → Nat → Mapping → Except Mapping Mapping
  | 0 => ensurePt
  | 1 => ensurePd
  | _ => ensurePdp

theorem descends_of_table {child : Nat} (ready : Ready state (level + 1) page)
    (table : decode (level + 1) (state.memory page slot) = .table child) :
    Descends state level page slot (.ok state) :=
  ⟨Changed.refl ready, fun _ => Kept.refl, ⟨child, table⟩, fun _ => .inl rfl⟩

theorem ensure_descends (low : level < 3) (ready : Ready state (level + 1) page)
    (inside : slot < 512) : Descends state level page slot (ensure level page slot state) := by
  match level, low with
  | 0, _ =>
    rw [show ensure 0 = ensurePt from rfl, ensurePt]
    split
    · rename_i unmapped
      rw [Bool.or_eq_true, Bool.not_eq_true'] at unmapped
      exact newTable_descends ready inside (fun _ => decode_large (by decide) unmapped) (refills_pt _)
    · rename_i mapped
      rw [Bool.or_eq_true, not_or, Bool.not_eq_true, Bool.not_eq_false', Bool.not_eq_true] at mapped
      exact descends_of_table ready (decode_table mapped.1 mapped.2)
  | 1, _ =>
    rw [show ensure 1 = ensurePd from rfl, ensurePd]
    split
    · rename_i unmapped
      rw [Bool.or_eq_true, Bool.not_eq_true'] at unmapped
      exact newTable_descends ready inside (fun _ => decode_large (by decide) unmapped) (refills_pd _)
    · rename_i mapped
      rw [Bool.or_eq_true, not_or, Bool.not_eq_true, Bool.not_eq_false', Bool.not_eq_true] at mapped
      exact descends_of_table ready (decode_table mapped.1 mapped.2)
  | 2, _ =>
    rw [show ensure 2 = ensurePdp from rfl, ensurePdp]
    split
    · rename_i unmapped
      rw [Bool.not_eq_true'] at unmapped
      refine newTable_descends ready inside ?_ (refills_pdp _ unmapped)
      intro child table
      rw [decode_absent unmapped] at table
      cases table
    · rename_i mapped
      rw [Bool.not_eq_true, Bool.not_eq_false'] at mapped
      exact descends_of_table ready (decode_top mapped)

end NewTable

section MapPage
variable {state next final : Mapping} {level page slot child va pa : Nat}
variable {result : Except Mapping Mapping}

/-- The addresses whose walks go through the same entries down from a level. -/
def SamePath (level va other : Nat) : Prop := ∀ lower ≤ level, index lower other = index lower va

structure Touched (state next : Mapping) (level page : Nat) : Prop where
  changed : Changed state next level page
  entries : ∀ slot, next.memory page slot = state.memory page slot ∨
    present (next.memory page slot) = true

/-- A mapping maps the page and keeps all other addresses, or it fails and keeps them all. -/
def Maps (state : Mapping) (level page va pa : Nat) : Except Mapping Mapping → Prop
  | .error stopped => Touched state stopped level page ∧
      ∀ other, Kept other (stop pageFormat state.memory level page other)
        (stop pageFormat stopped.memory level page other)
  | .ok next => Touched state next level page ∧
      (∀ other, SamePath level va other → ∃ value,
        found pageFormat next.memory level page other = .leaf value ∧ value other = pa + other % 4096) ∧
      ∀ other, ¬ SamePath level va other →
        Kept other (stop pageFormat state.memory level page other)
          (stop pageFormat next.memory level page other)

section

variable (changed : Changed state next level child) (ready : Ready state (level + 1) page)
  (inside : slot < 512)
include changed ready inside

theorem Changed.replaced (table : decode (level + 1) (state.memory page slot) = .table child) :
    Replaced pageFormat state.memory next.memory level page slot child
        (fun other => InPool state.context other ∧ ¬ InPool next.context other) ∧
      next.memory page = state.memory page := by
  have apart := (ready.unshared slot inside child table).2.1
  have samePage : next.memory page = state.memory page :=
    changed.frame page apart (ready.fresh page owns_root)
  refine ⟨⟨inside, ?_, ?_, ?_, changed.unshared, ?_, ?_⟩, samePage⟩
  · rw [samePage]
    exact table
  · intro other _ _
    rw [samePage]
  · intro other otherInside beside sibling entry owned owns index _
    have disjoint : ¬ Owns pageFormat state.memory level child owned := by
      intro both
      exact beside ((ready.unshared slot inside child table).2.2 other otherInside sibling entry owned
        both owns).symm
    rw [changed.frame owned disjoint (ready.fresh owned (.inr ⟨other, otherInside, sibling, entry, owns⟩))]
  · intro owned owns
    rcases changed.owned owned owns with before | taken
    · exact .inr ⟨child, table, before⟩
    · exact .inl taken
  · exact fun owned owns taken => ready.fresh owned owns taken.1

theorem Changed.lift (table : decode (level + 1) (state.memory page slot) = .table child) :
    Changed state next (level + 1) page := by
  obtain ⟨replaced, samePage⟩ := changed.replaced ready inside table
  refine ⟨?_, fun other owns => replaced.owns owns, replaced.unshared_after ready.unshared,
    changed.shrinks, changed.pool⟩
  intro other apart unpooled
  exact changed.frame other (fun owns => apart (.inr ⟨slot, inside, child, table, owns⟩)) unpooled

theorem Changed.kept_lift
    (table : decode (level + 1) (state.memory page slot) = .table child) {other : Nat}
    (kept : index (level + 1) other = slot →
      Kept other (stop pageFormat state.memory level child other)
        (stop pageFormat next.memory level child other)) :
    Kept other (stop pageFormat state.memory (level + 1) page other)
      (stop pageFormat next.memory (level + 1) page other) := by
  obtain ⟨replaced, _⟩ := changed.replaced ready inside table
  by_cases same : index (level + 1) other = slot
  · rw [stop_below same table, stop_below same replaced.entry]
    exact kept same
  · rw [replaced.stop_beside same]
    exact Kept.refl

end

theorem Maps.lift (ready : Ready state (level + 1) page)
    (table : decode (level + 1) (state.memory page (index (level + 1) va)) = .table child)
    (maps : Maps state level child va pa result) : Maps state (level + 1) page va pa result := by
  have inside : index (level + 1) va < 512 := pageFormat.index_lt (level + 1) va
  have touched : ∀ {next}, Touched state next level child → Touched state next (level + 1) page := by
    intro next touched
    refine ⟨touched.changed.lift ready inside table, ?_⟩
    intro slot
    rw [(touched.changed.replaced ready inside table).2]
    exact .inl rfl
  cases result with
  | error stopped =>
    obtain ⟨below, kept⟩ := maps
    exact ⟨touched below, fun other => below.changed.kept_lift ready inside table fun _ => kept other⟩
  | ok next =>
    obtain ⟨below, here, kept⟩ := maps
    obtain ⟨replaced, _⟩ := below.changed.replaced ready inside table
    refine ⟨touched below, ?_, ?_⟩
    · intro other path
      have lower : SamePath level va other := fun lower le => path lower (Nat.le_succ_of_le le)
      obtain ⟨value, leaf, target⟩ := here other lower
      refine ⟨value, ?_, target⟩
      rw [found, stop_below (path (level + 1) (le_refl _)) replaced.entry]
      exact leaf
    · intro other different
      apply below.changed.kept_lift ready inside table
      intro same
      apply kept
      intro lower
      apply different
      intro anyLevel le
      rcases Nat.eq_or_lt_of_le le with rfl | less
      · exact same
      · exact lower anyLevel (Nat.le_of_lt_succ less)

theorem Maps.after (touched : Touched state next level page)
    (kept : ∀ other, Kept other (stop pageFormat state.memory level page other)
      (stop pageFormat next.memory level page other))
    (maps : Maps next level page va pa result) : Maps state level page va pa result := by
  have joined : ∀ {final}, Touched next final level page → Touched state final level page := by
    intro final last
    refine ⟨touched.changed.trans last.changed, ?_⟩
    intro slot
    rcases last.entries slot with same | isPresent
    · rw [same]
      exact touched.entries slot
    · exact .inr isPresent
  cases result with
  | error stopped =>
    obtain ⟨last, lastKept⟩ := maps
    exact ⟨joined last, fun other => (kept other).trans (lastKept other)⟩
  | ok final =>
    obtain ⟨last, here, lastKept⟩ := maps
    exact ⟨joined last, here, fun other different => (kept other).trans (lastKept other different)⟩

def mapFrom : Nat → Nat → Nat → Nat → Mapping → Except Mapping Mapping
  | 0, page, va, pa, state =>
    .ok { state with
      memory := state.memory.set page (ptOffset va)
        (withPresent (withReadWrite (pa &&& paging4KAddressMask64))) }
  | level + 1, page, va, pa, state =>
    (ensure level page (index (level + 1) va) state).bind fun next =>
      mapFrom level (next.memory page (index (level + 1) va) &&& paging4KAddressMask64) va pa next

theorem vmMapVirtualPage_eq_mapFrom (pageTable : Nat) :
    vmMapVirtualPage pageTable va pa state = mapFrom 3 pageTable va pa
        { state with memory := clearAliased pageTable (pml4Offset va) state.memory } := rfl

theorem set_maps (ready : Ready state 0 page) (aligned : pa % 4096 = 0)
    (bounded : pa < 4503599627370496) :
    Maps state 0 page va pa (mapFrom 0 page va pa state) := by
  have address : pa &&& paging4KAddressMask64 = pa := by
    rw [land_4K]
    omega
  have entry : decode 0 (withPresent (withReadWrite (pa &&& paging4KAddressMask64))) =
      .leaf fun other => pa + other % 4096 := by
    rw [decode_small, address]
  refine ⟨⟨⟨?_, fun _ owns => .inl owns, trivial, fun _ inPool => inPool, ready.pool⟩, ?_⟩, ?_, ?_⟩
  · intro other apart _
    exact Memory.set_page fun same => apart same
  · intro slot
    by_cases same : slot = ptOffset va
    · right
      rw [same]
      show present (Memory.set _ _ _ _ page (ptOffset va)) = true
      rw [Memory.set_same, land_4K, small_entry _ (by omega), present_iff]
      omega
    · exact .inl (Memory.set_slot same)
  · intro other path
    refine ⟨fun other => pa + other % 4096, ?_, rfl⟩
    have same : ptOffset other = ptOffset va := path 0 (le_refl _)
    rw [found_zero, same]
    show decode 0 (Memory.set _ _ _ _ page (ptOffset va)) = _
    rw [Memory.set_same, entry]
  · intro other different
    have beside : ptOffset other ≠ ptOffset va := by
      intro same
      apply different
      intro lower le
      rw [Nat.le_zero.mp le]
      exact same
    have unchanged : Memory.set state.memory page (ptOffset va)
        (withPresent (withReadWrite (pa &&& paging4KAddressMask64))) page (ptOffset other) =
          state.memory page (ptOffset other) := Memory.set_slot beside
    show Kept other (0, state.memory page (ptOffset other)) (0, Memory.set _ _ _ _ page (ptOffset other))
    rw [unchanged]
    exact Kept.refl

theorem mapFrom_maps (low : level ≤ 3) (ready : Ready state level page) (aligned : pa % 4096 = 0)
    (bounded : pa < 4503599627370496) :
    Maps state level page va pa (mapFrom level page va pa state) := by
  induction level generalizing state page with
  | zero => exact set_maps ready aligned bounded
  | succ level ih =>
    have inside : index (level + 1) va < 512 := pageFormat.index_lt (level + 1) va
    have descends := ensure_descends low ready inside
    rw [mapFrom]
    cases ensured : ensure level page (index (level + 1) va) state with
    | error stopped =>
      rw [ensured] at descends
      obtain ⟨sameMemory, changed⟩ := descends
      refine ⟨⟨changed, ?_⟩, ?_⟩
      · intro slot
        rw [sameMemory]
        exact .inl rfl
      · intro other
        rw [sameMemory]
        exact Kept.refl
    | ok next =>
      rw [ensured] at descends
      obtain ⟨child, table⟩ := descends.table
      have nextReady := descends.changed.ready ready
      have childReady : Ready next level child := ⟨(nextReady.unshared _ inside child table).1,
          fun owned owns => nextReady.fresh owned (.inr ⟨_, inside, child, table, owns⟩),
          nextReady.pool⟩
      have below := ih (Nat.le_of_succ_le low) childReady
      rw [(eq_of_decode_table table).1] at below table
      exact (below.lift nextReady table).after ⟨descends.changed, descends.entries⟩ descends.kept

end MapPage

end OpenCore.PageMapping
