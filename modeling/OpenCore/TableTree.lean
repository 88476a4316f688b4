import Mathlib.Data.Nat.Basic

/-!
Trees of tables in a memory of pages, as a processor walks them: an entry of a table is
absent, a leaf that translates every address below it, or the page of a table one level
down. A tree owns the pages of its tables.
-/

namespace OpenCore.TableTree

variable {Word Address Result : Type}

inductive Entry (Address Result : Type) where
  | absent
  | leaf (value : Address → Result)
  | table (page : Nat)

structure Format (Word Address Result : Type) where
  slots : Nat
  index : Nat → Address → Nat
  index_lt : ∀ level address, index level address < slots
  decode : Nat → Word → Entry Address Result

abbrev Memory (Word : Type) := Nat → Nat → Word

def Memory.set (memory : Memory Word) (page slot : Nat) (word : Word) : Memory Word :=
  fun place index => if place = page ∧ index = slot then word else memory place index

theorem Memory.set_same (memory : Memory Word) (page slot : Nat) (word : Word) :
    memory.set page slot word page slot = word := if_pos ⟨rfl, rfl⟩

theorem Memory.set_slot {memory : Memory Word} {page slot other : Nat} {word : Word}
    (different : other ≠ slot) : memory.set page slot word page other = memory page other :=
  if_neg fun both => different both.2

theorem Memory.set_page {memory : Memory Word} {page slot other : Nat} {word : Word}
    (different : other ≠ page) : memory.set page slot word other = memory other := by
  funext index
  exact if_neg fun both => different both.1

variable (format : Format Word Address Result)

def stop (memory : Memory Word) : Nat → Nat → Address → Nat × Word
  | 0, page, address => (0, memory page (format.index 0 address))
  | level + 1, page, address =>
    match format.decode (level + 1) (memory page (format.index (level + 1) address)) with
    | .table child => stop memory level child address
    | _ => (level + 1, memory page (format.index (level + 1) address))

def found (memory : Memory Word) (level page : Nat) (address : Address) : Entry Address Result :=
  format.decode (stop format memory level page address).1 (stop format memory level page address).2

def Owns (memory : Memory Word) : Nat → Nat → Nat → Prop
  | 0, page, owned => owned = page
  | level + 1, page, owned => owned = page ∨ ∃ slot < format.slots, ∃ child,
      format.decode (level + 1) (memory page slot) = .table child ∧ Owns memory level child owned

def Unshared (memory : Memory Word) : Nat → Nat → Prop
  | 0, _ => True
  | level + 1, page => ∀ slot < format.slots, ∀ child,
      format.decode (level + 1) (memory page slot) = .table child →
        Unshared memory level child ∧ ¬ Owns format memory level child page ∧
        ∀ other < format.slots, ∀ sibling,
          format.decode (level + 1) (memory page other) = .table sibling →
            ∀ owned, Owns format memory level child owned →
              Owns format memory level sibling owned → slot = other

variable {format} {memory after : Memory Word} {level page : Nat}

theorem owns_root : Owns format memory level page page := by
  cases level with
  | zero => rfl
  | succ level => exact .inl rfl

theorem stop_below {slot child : Nat} {address : Address}
    (same : format.index (level + 1) address = slot)
    (entry : format.decode (level + 1) (memory page slot) = .table child) :
    stop format memory (level + 1) page address = stop format memory level child address := by
  rw [stop, same, entry]

theorem stop_here {slot : Nat} {address : Address} (same : format.index (level + 1) address = slot)
    (entry : ∀ child, format.decode (level + 1) (memory page slot) ≠ .table child) :
    stop format memory (level + 1) page address = (level + 1, memory page slot) := by
  rw [stop, same]
  cases decoded : format.decode (level + 1) (memory page slot) with
  | absent => rfl
  | leaf value => rfl
  | table child => exact absurd decoded (entry child)

section Flat

variable
  (flat : ∀ slot < format.slots, ∀ child, format.decode level (memory page slot) ≠ .table child)
include flat

theorem owns_of_flat {owned : Nat} (owns : Owns format memory level page owned) : owned = page := by
  cases level with
  | zero => exact owns
  | succ level =>
    rcases owns with root | ⟨slot, inside, child, entry, _⟩
    · exact root
    · exact absurd entry (flat slot inside child)

theorem unshared_of_flat : Unshared format memory level page := by
  cases level with
  | zero => trivial
  | succ level => exact fun slot inside child entry => absurd entry (flat slot inside child)

theorem stop_of_flat {address : Address} :
    stop format memory level page address = (level, memory page (format.index level address)) := by
  cases level with
  | zero => rfl
  | succ level => exact stop_here rfl fun child => flat _ (format.index_lt _ _) child

end Flat

section Congruence

def Agrees (format : Format Word Address Result) (memory after : Memory Word)
    (level page : Nat) : Prop :=
  ∀ owned, Owns format memory level page owned →
    ∀ slot < format.slots, after owned slot = memory owned slot

theorem Agrees.child {slot child : Nat} (agrees : Agrees format memory after (level + 1) page)
    (inside : slot < format.slots)
    (entry : format.decode (level + 1) (memory page slot) = .table child) :
    Agrees format memory after level child := by
  intro owned owns
  exact agrees owned (.inr ⟨slot, inside, child, entry, owns⟩)

theorem stop_congr (agrees : Agrees format memory after level page) (address : Address) :
    stop format after level page address = stop format memory level page address := by
  induction level generalizing page with
  | zero => rw [stop, stop, agrees page owns_root _ (format.index_lt 0 address)]
  | succ level ih =>
    have inside := format.index_lt (level + 1) address
    rw [stop, stop, agrees page owns_root _ inside]
    cases entry : format.decode (level + 1) (memory page (format.index (level + 1) address)) with
    | absent => rfl
    | leaf value => rfl
    | table child => exact ih (agrees.child inside entry)

theorem owns_congr (agrees : Agrees format memory after level page) (owned : Nat) :
    Owns format after level page owned ↔ Owns format memory level page owned := by
  induction level generalizing page with
  | zero => exact Iff.rfl
  | succ level ih =>
    rw [Owns, Owns]
    refine or_congr_right ?_
    constructor
    · rintro ⟨slot, inside, child, entry, owns⟩
      rw [agrees page owns_root slot inside] at entry
      exact ⟨slot, inside, child, entry, (ih (agrees.child inside entry)).mp owns⟩
    · rintro ⟨slot, inside, child, entry, owns⟩
      refine ⟨slot, inside, child, ?_, (ih (agrees.child inside entry)).mpr owns⟩
      rw [agrees page owns_root slot inside]
      exact entry

theorem unshared_congr (agrees : Agrees format memory after level page)
    (unshared : Unshared format memory level page) : Unshared format after level page := by
  induction level generalizing page with
  | zero => trivial
  | succ level ih =>
    intro slot inside child entry
    rw [agrees page owns_root slot inside] at entry
    obtain ⟨below, apart, siblings⟩ := unshared slot inside child entry
    have childAgrees := agrees.child inside entry
    refine ⟨ih childAgrees below, ?_, ?_⟩
    · rw [owns_congr childAgrees]
      exact apart
    · intro other otherInside sibling otherEntry owned owns siblingOwns
      rw [agrees page owns_root other otherInside] at otherEntry
      rw [owns_congr childAgrees] at owns
      rw [owns_congr (agrees.child otherInside otherEntry)] at siblingOwns
      exact siblings other otherInside sibling otherEntry owned owns siblingOwns

end Congruence

section Replacement
variable {slot child : Nat} {fresh : Nat → Prop}

structure Replaced (format : Format Word Address Result) (memory after : Memory Word)
    (level page slot child : Nat) (fresh : Nat → Prop) : Prop where
  inside : slot < format.slots
  entry : format.decode (level + 1) (after page slot) = .table child
  others : ∀ other < format.slots, other ≠ slot → after page other = memory page other
  siblings : ∀ other < format.slots, other ≠ slot → ∀ sibling,
    format.decode (level + 1) (memory page other) = .table sibling →
      Agrees format memory after level sibling
  unshared : Unshared format after level child
  owned : ∀ owned, Owns format after level child owned → fresh owned ∨ ∃ old,
    format.decode (level + 1) (memory page slot) = .table old ∧ Owns format memory level old owned
  fresh : ∀ owned, Owns format memory (level + 1) page owned → ¬ fresh owned

variable (replaced : Replaced format memory after level page slot child fresh)
  (unshared : Unshared format memory (level + 1) page)
include replaced unshared

omit unshared in
theorem Replaced.stop_beside
    {address : Address} (different : format.index (level + 1) address ≠ slot) :
    stop format after (level + 1) page address = stop format memory (level + 1) page address := by
  have inside := format.index_lt (level + 1) address
  rw [stop, stop, replaced.others _ inside different]
  cases entry : format.decode (level + 1) (memory page (format.index (level + 1) address)) with
  | absent => rfl
  | leaf value => rfl
  | table sibling => exact stop_congr (replaced.siblings _ inside different sibling entry) address

omit unshared in
theorem Replaced.owns {owned : Nat} (owns : Owns format after (level + 1) page owned) :
    Owns format memory (level + 1) page owned ∨ fresh owned := by
  rcases owns with root | ⟨other, inside, sibling, entry, below⟩
  · exact .inl (.inl root)
  · by_cases same : other = slot
    · subst same
      rw [replaced.entry] at entry
      cases entry
      rcases replaced.owned owned below with isFresh | ⟨old, oldEntry, oldOwns⟩
      · exact .inr isFresh
      · exact .inl (.inr ⟨other, inside, old, oldEntry, oldOwns⟩)
    · rw [replaced.others other inside same] at entry
      rw [owns_congr (replaced.siblings other inside same sibling entry)] at below
      exact .inl (.inr ⟨other, inside, sibling, entry, below⟩)

theorem Replaced.apart {owned other sibling : Nat}
    (owns : Owns format after level child owned) (inside : other < format.slots)
    (entry : format.decode (level + 1) (memory page other) = .table sibling)
    (siblingOwns : Owns format memory level sibling owned) : other = slot := by
  rcases replaced.owned owned owns with isFresh | ⟨old, oldEntry, oldOwns⟩
  · exact absurd isFresh (replaced.fresh owned (.inr ⟨other, inside, sibling, entry, siblingOwns⟩))
  · exact (unshared other inside sibling entry).2.2 slot replaced.inside old oldEntry owned siblingOwns
      oldOwns

theorem Replaced.unshared_after :
    Unshared format after (level + 1) page := by
  intro one inside below entry
  by_cases same : one = slot
  · subst same
    rw [replaced.entry] at entry
    cases entry
    refine ⟨replaced.unshared, ?_, ?_⟩
    · intro owns
      rcases replaced.owned page owns with isFresh | ⟨old, oldEntry, oldOwns⟩
      · exact replaced.fresh page owns_root isFresh
      · exact (unshared one inside old oldEntry).2.1 oldOwns
    · intro other otherInside sibling otherEntry owned owns siblingOwns
      by_cases again : other = one
      · exact again.symm
      · rw [replaced.others other otherInside again] at otherEntry
        rw [owns_congr (replaced.siblings other otherInside again sibling otherEntry)] at siblingOwns
        exact (replaced.apart unshared owns otherInside otherEntry siblingOwns).symm
  · rw [replaced.others one inside same] at entry
    have agrees := replaced.siblings one inside same below entry
    obtain ⟨belowUnshared, apart, siblings⟩ := unshared one inside below entry
    refine ⟨unshared_congr agrees belowUnshared, ?_, ?_⟩
    · rw [owns_congr agrees]
      exact apart
    · intro other otherInside sibling otherEntry owned owns siblingOwns
      rw [owns_congr agrees] at owns
      by_cases again : other = slot
      · subst again
        rw [replaced.entry] at otherEntry
        cases otherEntry
        exact replaced.apart unshared siblingOwns inside entry owns
      · rw [replaced.others other otherInside again] at otherEntry
        rw [owns_congr (replaced.siblings other otherInside again sibling otherEntry)] at siblingOwns
        exact siblings other otherInside sibling otherEntry owned owns siblingOwns

end Replacement

section Places

variable (format) in
def place (memory : Memory Word) : Nat → Nat → Address → Nat × Nat × Nat
  | 0, page, address => (0, page, format.index 0 address)
  | level + 1, page, address =>
    match format.decode (level + 1) (memory page (format.index (level + 1) address)) with
    | .table child => place memory level child address
    | _ => (level + 1, page, format.index (level + 1) address)

def Memory.read (memory : Memory Word) (place : Nat × Nat × Nat) : Word := memory place.2.1 place.2.2

def Memory.write (memory : Memory Word) (place : Nat × Nat × Nat) (word : Word) : Memory Word :=
  memory.set place.2.1 place.2.2 word

variable {address : Address}

theorem place_below {child : Nat}
    (entry : format.decode (level + 1) (memory page (format.index (level + 1) address)) =
      .table child) :
    place format memory (level + 1) page address = place format memory level child address := by
  rw [place, entry]

theorem place_here
    (entry : ∀ child, format.decode (level + 1) (memory page (format.index (level + 1) address)) ≠
      .table child) :
    place format memory (level + 1) page address =
      (level + 1, page, format.index (level + 1) address) := by
  rw [place]
  cases decoded : format.decode (level + 1)
      (memory page (format.index (level + 1) address)) with
  | absent => rfl
  | leaf value => rfl
  | table child => exact absurd decoded (entry child)

theorem stop_eq_place (address : Address) :
    stop format memory level page address = ((place format memory level page address).1,
      memory.read (place format memory level page address)) := by
  induction level generalizing page with
  | zero => rfl
  | succ level ih =>
    rw [stop, place]
    cases format.decode (level + 1) (memory page (format.index (level + 1) address)) with
    | absent => rfl
    | leaf value => rfl
    | table child => exact ih

theorem found_ne_table (last : ∀ word child, format.decode 0 word ≠ .table child)
    (address : Address) (child : Nat) : found format memory level page address ≠ .table child := by
  induction level generalizing page with
  | zero => exact last _ child
  | succ level ih =>
    by_cases leads : ∃ child, format.decode (level + 1)
        (memory page (format.index (level + 1) address)) = .table child
    · obtain ⟨lower, entry⟩ := leads
      rw [found, stop_below rfl entry]
      exact ih
    · rw [found, stop_here rfl (not_exists.mp leads)]
      exact not_exists.mp leads child

theorem owns_place (address : Address) :
    Owns format memory level page (place format memory level page address).2.1 := by
  induction level generalizing page with
  | zero => rfl
  | succ level ih =>
    cases entry : format.decode (level + 1)
        (memory page (format.index (level + 1) address)) with
    | table child =>
      rw [place_below entry]
      exact .inr ⟨_, format.index_lt _ _, child, entry, ih⟩
    | absent =>
      rw [place_here fun child table => by cases entry.symm.trans table]
      exact .inl rfl
    | leaf value =>
      rw [place_here fun child table => by cases entry.symm.trans table]
      exact .inl rfl

theorem place_congr (agrees : Agrees format memory after level page) (address : Address) :
    place format after level page address = place format memory level page address := by
  induction level generalizing page with
  | zero => rfl
  | succ level ih =>
    have inside := format.index_lt (level + 1) address
    rw [place, place, agrees page owns_root _ inside]
    cases entry : format.decode (level + 1) (memory page (format.index (level + 1) address)) with
    | absent => rfl
    | leaf value => rfl
    | table child => exact ih (agrees.child inside entry)

theorem Memory.read_write (memory : Memory Word) (place : Nat × Nat × Nat) (word : Word) :
    (memory.write place word).read place = word := Memory.set_same memory place.2.1 place.2.2 word

variable {word : Word}

theorem Memory.read_write_other {memory : Memory Word} {place other : Nat × Nat × Nat}
    (different : other.2 ≠ place.2) : (memory.write place word).read other = memory.read other :=
  if_neg fun both => different (Prod.ext both.1 both.2)

theorem place_eq {left right : Address} (unshared : Unshared format memory level page)
    (same : (place format memory level page left).2 = (place format memory level page right).2) :
    place format memory level page left = place format memory level page right := by
  induction level generalizing page with
  | zero => exact Prod.ext rfl same
  | succ level ih =>
    -- A place below an entry of this table is not in this table.
    have below : ∀ {address child}, format.decode (level + 1)
        (memory page (format.index (level + 1) address)) = .table child →
        (place format memory level child address).2.1 ≠ page := by
      intro address child entry root
      have owns : Owns format memory level child
        (place format memory level child address).2.1 := owns_place address
      rw [root] at owns
      exact (unshared _ (format.index_lt _ _) child entry).2.1 owns
    by_cases leftLeads : ∃ child, format.decode (level + 1)
        (memory page (format.index (level + 1) left)) = .table child
    · obtain ⟨child, leftEntry⟩ := leftLeads
      by_cases rightLeads : ∃ child, format.decode (level + 1)
          (memory page (format.index (level + 1) right)) = .table child
      · obtain ⟨sibling, rightEntry⟩ := rightLeads
        rw [place_below leftEntry, place_below rightEntry] at same ⊢
        have leftOwns : Owns format memory level child
          (place format memory level child left).2.1 := owns_place left
        have rightOwns : Owns format memory level sibling
          (place format memory level sibling right).2.1 := owns_place right
        rw [same] at leftOwns
        have slots := (unshared _ (format.index_lt _ _) child leftEntry).2.2 _
          (format.index_lt _ _) sibling rightEntry _ leftOwns rightOwns
        rw [slots, rightEntry] at leftEntry
        cases leftEntry
        exact ih (unshared _ (format.index_lt _ _) child rightEntry).1 same
      · rw [place_below leftEntry, place_here (not_exists.mp rightLeads)] at same
        exact absurd (congrArg Prod.fst same) (below leftEntry)
    · rw [place_here (not_exists.mp leftLeads)] at same ⊢
      by_cases rightLeads : ∃ child, format.decode (level + 1)
          (memory page (format.index (level + 1) right)) = .table child
      · obtain ⟨sibling, rightEntry⟩ := rightLeads
        rw [place_below rightEntry] at same
        exact absurd (congrArg Prod.fst same).symm (below rightEntry)
      · rw [place_here (not_exists.mp rightLeads)] at same ⊢
        exact Prod.ext rfl same

structure Rewritten (format : Format Word Address Result) (memory after : Memory Word)
    (level page : Nat) : Prop where
  place : ∀ address, place format after level page address = place format memory level page address
  unshared : Unshared format after level page
  owned : ∀ owned, Owns format after level page owned → Owns format memory level page owned

theorem rewritten_here {slot : Nat} (unshared : Unshared format memory (level + 1) page)
    (old : ∀ child, format.decode (level + 1) (memory page slot) ≠ .table child)
    (new : ∀ child, format.decode (level + 1) word ≠ .table child) :
    Rewritten format memory (memory.set page slot word) (level + 1) page := by
  have others : ∀ other, other ≠ slot → memory.set page slot word page other = memory page other :=
    fun other different => Memory.set_slot different
  have entries : ∀ other child,
      format.decode (level + 1) (memory.set page slot word page other) = .table child ↔
        format.decode (level + 1) (memory page other) = .table child := by
    intro other child
    by_cases same : other = slot
    · subst same
      rw [Memory.set_same]
      exact iff_of_false (new child) (old child)
    · rw [others other same]
  have agrees : ∀ other < format.slots, ∀ child,
      format.decode (level + 1) (memory page other) = .table child →
        Agrees format memory (memory.set page slot word) level child := by
    intro other inside child entry owned owns index _
    have elsewhere : owned ≠ page := by
      rintro rfl
      exact (unshared other inside child entry).2.1 owns
    rw [Memory.set_page elsewhere]
  refine ⟨?_, ?_, ?_⟩
  · intro address
    have inside := format.index_lt (level + 1) address
    by_cases leads : ∃ child, format.decode (level + 1)
        (memory page (format.index (level + 1) address)) = .table child
    · obtain ⟨child, entry⟩ := leads
      rw [place_below entry, place_below ((entries _ child).mpr entry)]
      exact place_congr (agrees _ inside child entry) address
    · have last := not_exists.mp leads
      have still := fun child => mt (entries _ child).mp (last child)
      rw [place_here last, place_here still]
  · intro one inside child entry
    rw [entries] at entry
    have agree := agrees one inside child entry
    obtain ⟨below, apart, siblings⟩ := unshared one inside child entry
    refine ⟨unshared_congr agree below, ?_, ?_⟩
    · rw [owns_congr agree]
      exact apart
    · intro other otherInside sibling otherEntry owned owns siblingOwns
      rw [entries] at otherEntry
      rw [owns_congr agree] at owns
      rw [owns_congr (agrees other otherInside sibling otherEntry)] at siblingOwns
      exact siblings other otherInside sibling otherEntry owned owns siblingOwns
  · rintro owned (root | ⟨other, inside, child, entry, owns⟩)
    · exact .inl root
    · rw [entries] at entry
      rw [owns_congr (agrees other inside child entry)] at owns
      exact .inr ⟨other, inside, child, entry, owns⟩

/-- The word where a walk ends becomes another one that leads to no table: every walk ends where
it did. -/
theorem rewritten_set (unshared : Unshared format memory level page)
    (old : ∀ child, found format memory level page address ≠ .table child)
    (new : ∀ child, format.decode (place format memory level page address).1 word ≠ .table child) :
    Rewritten format memory (memory.write (place format memory level page address) word) level page := by
  induction level generalizing page with
  | zero => exact ⟨fun _ => rfl, trivial, fun _ owns => owns⟩
  | succ level ih =>
    have inside := format.index_lt (level + 1) address
    have here : (∀ child, format.decode (level + 1)
        (memory page (format.index (level + 1) address)) ≠ .table child) →
        Rewritten format memory (memory.write (place format memory (level + 1) page address) word)
          (level + 1) page := by
      intro last
      rw [place_here last] at new ⊢
      exact rewritten_here unshared last new
    cases entry : format.decode (level + 1) (memory page (format.index (level + 1) address)) with
    | absent => exact here fun child table => by cases entry.symm.trans table
    | leaf value => exact here fun child table => by cases entry.symm.trans table
    | table child =>
      obtain ⟨below, apart, siblings⟩ := unshared _ inside child entry
      have owns : Owns format memory level child
          (place format memory level child address).2.1 := owns_place address
      rw [place_below entry] at new ⊢
      rw [found, stop_below rfl entry] at old
      have rewritten := ih below old new
      have elsewhere : page ≠ (place format memory level child address).2.1 := by
        intro same
        rw [← same] at owns
        exact apart owns
      have root : memory.write (place format memory level child address) word page = memory page :=
        Memory.set_page elsewhere
      have replaced : Replaced format memory
          (memory.write (place format memory level child address) word) level page
          (format.index (level + 1) address) child fun _ => False := by
        refine ⟨inside, ?_, ?_, ?_, rewritten.unshared, ?_, fun _ _ isFresh => isFresh⟩
        · rw [root]
          exact entry
        · intro other _ _
          rw [root]
        · intro other otherInside different sibling otherEntry owned siblingOwns index _
          have apartFrom : owned ≠ (place format memory level child address).2.1 := by
            rintro rfl
            exact different (siblings other otherInside sibling otherEntry _ owns siblingOwns).symm
          rw [Memory.write, Memory.set_page apartFrom]
        · exact fun owned childOwns => .inr ⟨child, entry, rewritten.owned owned childOwns⟩
      refine ⟨?_, replaced.unshared_after unshared, ?_⟩
      · intro other
        rw [place, place, root]
        cases otherEntry : format.decode (level + 1)
            (memory page (format.index (level + 1) other)) with
        | absent => rfl
        | leaf value => rfl
        | table sibling =>
          by_cases same : format.index (level + 1) other = format.index (level + 1) address
          · rw [same, entry] at otherEntry
            cases otherEntry
            exact rewritten.place other
          · exact place_congr (replaced.siblings _ (format.index_lt _ _) same sibling otherEntry)
              other
      · intro owned after
        exact (replaced.owns after).resolve_right id

end Places

end OpenCore.TableTree
