import OpenCore.KernelCollection
import OpenCore.SlotChain
import Mathlib.Data.List.Pairwise

/-!
Indexing keeps every page of the kext segment a terminated chain of its
relocation slots. The conversion of one relocation is a splice into the chain
of its page, in any order of relocations; a whole list is a run of splices.
-/

namespace OpenCore.FixupChains

open Base ByteBuffer KernelCollection SlotChain List

def slotAddress (ctx : Context) (page offset : Nat) : Nat :=
  ctx.kextsFileOffset + page * machoPageSize + offset

def fixupAt (ctx : Context) (address : Nat) : Rebase :=
  Rebase.decode (load ctx.prelinked 8 address)

def pageLink (ctx : Context) (page offset : Nat) : Nat :=
  (fixupAt ctx (slotAddress ctx page offset)).next

def payloadAt (ctx : Context) (address : Nat) : Rebase :=
  { fixupAt ctx address with next := 0 }

def pageStartOf (ctx : Context) (page : Nat) : Nat :=
  ctx.kextsFixupChains.pageStart.getD page startNone

def chainOf (ctx : Context) (page : Nat) : List Nat :=
  if pageStartOf ctx page = startNone then []
  else follow (pageLink ctx page) machoPageSize (pageStartOf ctx page)

structure PageChain (ctx : Context) (page : Nat) (slots : List Nat) : Prop where
  head : pageStartOf ctx page = slots.headD startNone
  inside : ∀ offset ∈ slots, offset + 8 ≤ machoPageSize
  buffered : ∀ offset ∈ slots,
    slotAddress ctx page offset + 8 ≤ ctx.prelinked.length
  apart : slots.Pairwise fun left right => left + 8 ≤ right
  linked : Linked (pageLink ctx page) slots

structure InSegment (ctx : Context) (reloc : RelocationInfo) (relocBase : Nat) : Prop where
  page : relocOffsetInSeg ctx reloc relocBase / machoPageSize <
    ctx.kextsFixupChains.pageStart.length
  inside : relocOffsetInSeg ctx reloc relocBase % machoPageSize + 8 ≤ machoPageSize
  buffered : relocDest ctx reloc relocBase + 8 ≤ ctx.prelinked.length

theorem PageChain.rest_lt {ctx : Context} {page slot : Nat} {rest : List Nat}
    (chain : PageChain ctx page (slot :: rest)) : rest.length < machoPageSize := by
  have filled := length_mul_le 8 0 machoPageSize (slot :: rest) (by simp) chain.apart
    (fun offset member => ⟨Nat.zero_le _, chain.inside offset member⟩)
  simp only [length_cons, machoPageSize_val] at *
  omega

theorem PageChain.chainOf_eq {ctx : Context} {page : Nat} {slots : List Nat}
    (chain : PageChain ctx page slots) : chainOf ctx page = slots := by
  have head := chain.head
  unfold chainOf
  cases slots with
  | nil => simp [head]
  | cons slot rest =>
    have bound := chain.inside slot (by simp)
    simp only [machoPageSize_val] at bound
    have present : slot ≠ startNone := by
      simp only [startNone]
      omega
    rw [head, headD_cons, if_neg present]
    exact follow_linked _ slot rest machoPageSize chain.linked chain.rest_lt

section Step
variable {ctx : Context} {reloc : RelocationInfo} {relocBase : Nat}

theorem newFixupPage_eq (table : ctx.kextsFixupChains.pageStart.length < u16)
    (placed : InSegment ctx reloc relocBase) :
    newFixupPage ctx reloc relocBase = relocOffsetInSeg ctx reloc relocBase / machoPageSize := by
  have page := placed.page
  exact Nat.mod_eq_of_lt (by omega)

theorem relocDest_eq (table : ctx.kextsFixupChains.pageStart.length < u16)
    (placed : InSegment ctx reloc relocBase) :
    relocDest ctx reloc relocBase = slotAddress ctx (newFixupPage ctx reloc relocBase)
        (newFixupPageOffset ctx reloc relocBase) := by
  rw [newFixupPage_eq table placed]
  have split := Nat.div_add_mod' (relocOffsetInSeg ctx reloc relocBase) machoPageSize
  simp only [relocDest, slotAddress, newFixupPageOffset]
  omega

theorem decode_newFixup (ctx : Context) (reloc : RelocationInfo) (relocBase next : Nat) :
    Rebase.decode (newFixup ctx reloc relocBase next).encode =
      newFixup ctx reloc relocBase next := by
  apply Rebase.decode_encode <;> simp only [newFixup]
  · exact Nat.mod_lt _ (by decide)
  all_goals omega

theorem newFixup_encode_lt (ctx : Context) (reloc : RelocationInfo) (relocBase next : Nat) :
    (newFixup ctx reloc relocBase next).encode < u64 := by
  apply Rebase.encode_lt <;> simp only [newFixup]
  · exact Nat.mod_lt _ (by decide)
  all_goals omega

theorem decode_relinked (value next : Nat) (bound : next < 0x1000) :
    Rebase.decode ({ Rebase.decode value with next := next } : Rebase).encode =
      { Rebase.decode value with next := next } := by
  apply Rebase.decode_encode <;> simp only [Rebase.decode] <;> omega

theorem relinked_encode_lt (value next : Nat) (bound : next < 0x1000) :
    ({ Rebase.decode value with next := next } : Rebase).encode < u64 := by
  apply Rebase.encode_lt <;> simp only [Rebase.decode] <;> omega

theorem load_withFixup (ctx : Context) (destination : Nat) (fixup : Rebase)
    (inside : destination + 8 ≤ ctx.prelinked.length) (bound : fixup.encode < u64) :
    load (ctx.withFixup destination fixup).prelinked 8 destination = fixup.encode := by
  simp only [Context.withFixup]
  rw [load_store_same _ _ _ _ inside]
  exact Nat.mod_eq_of_lt (by simpa using bound)

theorem load_withFixup_apart (ctx : Context) (destination address : Nat) (fixup : Rebase)
    (inside : destination + 8 ≤ ctx.prelinked.length) (apart : Apart address 8 destination 8) :
    load (ctx.withFixup destination fixup).prelinked 8 address = load ctx.prelinked 8 address := by
  exact load_store_apart _ _ _ _ _ _ inside apart.symm

theorem lastFixupBefore_eq_seek (page offset fuel iter : Nat)
    (low : iter < offset) (bound : offset ≤ machoPageSize) :
    lastFixupBefore ctx.prelinked (ctx.kextsFileOffset + page * machoPageSize)
        offset fuel iter = seek (pageLink ctx page) offset fuel iter := by
  induction fuel generalizing iter with
  | zero => rfl
  | succ fuel ih =>
    have small := Rebase.decode_next_lt
      (load ctx.prelinked 8 (ctx.kextsFileOffset + page * machoPageSize + iter))
    have link : pageLink ctx page iter = (Rebase.decode (load ctx.prelinked 8
        (ctx.kextsFileOffset + page * machoPageSize + iter))).next := rfl
    simp only [machoPageSize_val] at bound
    -- A link is at most twelve bits, so the 16-bit sum does not wrap below a page.
    have exactSum : (iter + pageLink ctx page iter) % u16 = iter + pageLink ctx page iter := by
      rw [link]
      exact Nat.mod_eq_of_lt (by simp only [u16_val]; omega)
    simp only [lastFixupBefore, seek, ← link, exactSum]
    split
    · exact ih _ (by omega)
    · rfl

end Step

section Splice
variable {ctx : Context} {page offset : Nat} {slots : List Nat}
variable {left right : Nat} {after : Context} {fixup : Rebase} {iter : Nat}

/-- What one splice does: the slot joins the chain of its page with the given
payload, and nothing else changes but the link of its predecessor. -/
structure Spliced (before after : Context) (page offset : Nat) (slots : List Nat)
    (payload : Rebase) : Prop where
  fileOffset : after.kextsFileOffset = before.kextsFileOffset
  vmAddress : after.kextsVmAddress = before.kextsVmAddress
  length : after.prelinked.length = before.prelinked.length
  table : after.kextsFixupChains.pageStart.length = before.kextsFixupChains.pageStart.length
  otherPages : ∀ other, other ≠ page → pageStartOf after other = pageStartOf before other
  untouched : ∀ address, Apart address 8 (slotAddress before page offset) 8 →
    (∀ slot ∈ slots, Apart address 8 (slotAddress before page slot) 8) →
    load after.prelinked 8 address = load before.prelinked 8 address
  kept : ∀ slot ∈ slots, payloadAt after (slotAddress before page slot) =
    payloadAt before (slotAddress before page slot)
  fresh : payloadAt after (slotAddress before page offset) = payload
  chain : PageChain after page (slots.orderedInsert (· ≤ ·) offset)

theorem slotAddress_apart (apart : Apart left 8 right 8) :
    Apart (slotAddress ctx page left) 8 (slotAddress ctx page right) 8 := by
  unfold Apart slotAddress at *
  omega

theorem pageStartOf_set (other : Nat) :
    pageStartOf (ctx.withPageStart page offset) other =
      if other = page ∧ page < ctx.kextsFixupChains.pageStart.length then offset
      else pageStartOf ctx other := by
  unfold pageStartOf Context.withPageStart
  by_cases same : other = page
  · subst same
    by_cases bound : other < ctx.kextsFixupChains.pageStart.length
    · simp [List.getD, bound]
    · simp [List.getD, bound]
  · have different : page ≠ other := fun h => same h.symm
    simp [List.getD, getElem?_set_ne different, same]

theorem fixupAt_withFixup (ctx : Context) (destination : Nat) (fixup : Rebase)
    (inside : destination + 8 ≤ ctx.prelinked.length)
    (bound : fixup.encode < u64) (stable : Rebase.decode fixup.encode = fixup) :
    fixupAt (ctx.withFixup destination fixup) destination = fixup := by
  unfold fixupAt
  rw [load_withFixup ctx destination fixup inside bound, stable]

theorem fixupAt_withFixup_apart (ctx : Context) (destination address : Nat) (fixup : Rebase)
    (inside : destination + 8 ≤ ctx.prelinked.length) (apart : Apart address 8 destination 8) :
    fixupAt (ctx.withFixup destination fixup) address = fixupAt ctx address := by
  unfold fixupAt
  rw [load_withFixup_apart ctx destination address fixup inside apart]

theorem orderedInsert_apart (apart : slots.Pairwise fun left right => left + 8 ≤ right)
    (fresh : ∀ slot ∈ slots, Apart offset 8 slot 8) :
    (slots.orderedInsert (· ≤ ·) offset).Pairwise fun left right => left + 8 ≤ right := by
  induction slots with
  | nil => simp
  | cons slot rest ih =>
    obtain ⟨above, tail⟩ := pairwise_cons.mp apart
    have side := fresh slot (by simp)
    unfold Apart at side
    rw [orderedInsert_cons]
    split
    · refine pairwise_cons.mpr ⟨?_, apart⟩
      intro other member
      rcases mem_cons.mp member with same | later
      · omega
      · have gap := above other later
        omega
    · refine pairwise_cons.mpr ⟨?_, ih tail fun other member => fresh other (by simp [member])⟩
      intro other member
      rcases (mem_orderedInsert (· ≤ ·)).mp member with same | later
      · omega
      · exact above other later

theorem spliced_head (fixup : Rebase)
    (bound : fixup.encode < u64) (stable : Rebase.decode fixup.encode = fixup)
    (indexed : page < ctx.kextsFixupChains.pageStart.length) (inside : offset + 8 ≤ machoPageSize)
    (buffered : slotAddress ctx page offset + 8 ≤ ctx.prelinked.length)
    (chain : PageChain ctx page slots) (fresh : ∀ slot ∈ slots, Apart offset 8 slot 8)
    (first : ∀ slot ∈ slots, offset < slot) (link : fixup.next = slots.headD offset - offset) :
    Spliced ctx
      ((ctx.withPageStart page offset).withFixup (slotAddress ctx page offset) fixup)
      page offset slots { fixup with next := 0 } := by
  have room : slotAddress ctx page offset + 8 ≤
      (ctx.withPageStart page offset).prelinked.length := buffered
  have written := fixupAt_withFixup (ctx.withPageStart page offset)
    (slotAddress ctx page offset) fixup room bound stable
  have others : ∀ slot ∈ slots, fixupAt ((ctx.withPageStart page offset).withFixup
        (slotAddress ctx page offset) fixup) (slotAddress ctx page slot) =
      fixupAt ctx (slotAddress ctx page slot) := by
    intro slot member
    exact fixupAt_withFixup_apart (ctx.withPageStart page offset) _ _ fixup room
      (slotAddress_apart (fresh slot member).symm)
  have insertion : slots.orderedInsert (· ≤ ·) offset = offset :: slots := by
    cases slots with
    | nil => rfl
    | cons slot rest =>
      have below := first slot (by simp)
      rw [orderedInsert_cons, if_pos (by omega)]
  refine ⟨rfl, rfl, by simp [Context.withFixup, Context.withPageStart],
    by simp [Context.withFixup, Context.withPageStart], ?_, ?_, ?_, ?_, ?_⟩
  · intro other different
    exact (pageStartOf_set other).trans (if_neg (by simp [different]))
  · intro address apart _
    exact load_withFixup_apart (ctx.withPageStart page offset) _ address fixup room apart
  · intro slot member
    simp only [payloadAt, others slot member]
  · simp only [payloadAt, written]
  · rw [insertion]
    refine ⟨?_, ?_, ?_, ?_, ?_⟩
    · exact (pageStartOf_set page).trans (if_pos ⟨rfl, indexed⟩)
    · intro slot member
      rcases mem_cons.mp member with same | old
      · exact same ▸ inside
      · exact chain.inside slot old
    · intro slot member
      simp only [Context.withFixup, store_length]
      rcases mem_cons.mp member with same | old
      · exact same ▸ buffered
      · exact chain.buffered slot old
    · rw [← insertion]
      exact orderedInsert_apart chain.apart fresh
    · have linked : Linked (pageLink ((ctx.withPageStart page offset).withFixup
          (slotAddress ctx page offset) fixup) page) slots := by
        apply chain.linked.congr
        intro slot member
        exact congrArg Rebase.next (others slot member)
      have own : pageLink ((ctx.withPageStart page offset).withFixup
          (slotAddress ctx page offset) fixup) page offset = fixup.next :=
        congrArg Rebase.next written
      cases slots with
      | nil =>
        show pageLink _ page offset = 0
        rw [own, link]
        exact Nat.sub_self offset
      | cons slot rest => exact ⟨first slot (by simp), own.trans link, linked⟩

theorem PageChain.slots_apart (chain : PageChain ctx page slots)
    (leftMember : left ∈ slots) (rightMember : right ∈ slots) (different : left ≠ right) :
    Apart left 8 right 8 := by
  have symmetric : Std.Symm fun a b : Nat => Apart a 8 b 8 := ⟨fun _ _ => Apart.symm⟩
  have weak : slots.Pairwise fun a b => Apart a 8 b 8 := chain.apart.imp Or.inl
  exact weak.forall leftMember rightMember different

structure Relinked (before after : Context) (page offset iter : Nat) (fixup : Rebase) : Prop where
  fileOffset : after.kextsFileOffset = before.kextsFileOffset
  vmAddress : after.kextsVmAddress = before.kextsVmAddress
  length : after.prelinked.length = before.prelinked.length
  table : after.kextsFixupChains = before.kextsFixupChains
  untouched : ∀ address, Apart address 8 (slotAddress before page offset) 8 →
    Apart address 8 (slotAddress before page iter) 8 →
    load after.prelinked 8 address = load before.prelinked 8 address
  written : fixupAt after (slotAddress before page offset) = fixup
  predecessor : fixupAt after (slotAddress before page iter) =
    { fixupAt before (slotAddress before page iter) with next := offset - iter }

theorem relinked_of_writes (fixup : Rebase)
    (bound : fixup.encode < u64) (stable : Rebase.decode fixup.encode = fixup)
    (inside : offset + 8 ≤ machoPageSize)
    (buffered : slotAddress ctx page offset + 8 ≤ ctx.prelinked.length)
    (room : slotAddress ctx page iter + 8 ≤ ctx.prelinked.length) (apart : Apart offset 8 iter 8) :
    Relinked ctx
      ((ctx.withFixup (slotAddress ctx page iter)
        { fixupAt ctx (slotAddress ctx page iter) with next := offset - iter }).withFixup
          (slotAddress ctx page offset) fixup) page offset iter fixup := by
  have short : offset - iter < 0x1000 := by
    simp only [machoPageSize_val] at inside
    omega
  have relinked := decode_relinked
    (load ctx.prelinked 8 (slotAddress ctx page iter)) (offset - iter) short
  have relinkedBound := relinked_encode_lt
    (load ctx.prelinked 8 (slotAddress ctx page iter)) (offset - iter) short
  generalize middleEq : ctx.withFixup (slotAddress ctx page iter)
    { fixupAt ctx (slotAddress ctx page iter) with next := offset - iter } = middle
  have middleLength : middle.prelinked.length = ctx.prelinked.length := by
    rw [← middleEq]
    exact store_length _ _ _ _
  have middleRoom : slotAddress ctx page offset + 8 ≤ middle.prelinked.length := by
    rw [middleLength]
    exact buffered
  constructor
  · rw [← middleEq]
    rfl
  · rw [← middleEq]
    rfl
  · simp only [Context.withFixup, store_length, middleLength]
  · rw [← middleEq]
    rfl
  · intro address apartFresh apartIter
    rw [load_withFixup_apart middle _ _ _ middleRoom apartFresh, ← middleEq]
    exact load_withFixup_apart ctx _ _ _ room apartIter
  · exact fixupAt_withFixup middle (slotAddress ctx page offset) fixup middleRoom bound stable
  · rw [fixupAt_withFixup_apart _ _ _ _ middleRoom (slotAddress_apart apart.symm), ← middleEq]
    exact fixupAt_withFixup _ _ _ room relinkedBound relinked

theorem Relinked.others
    (relinked : Relinked ctx after page offset iter fixup) (chain : PageChain ctx page slots)
    (fresh : ∀ slot ∈ slots, Apart offset 8 slot 8) (member : iter ∈ slots) :
    ∀ slot ∈ slots, slot ≠ iter →
      fixupAt after (slotAddress ctx page slot) = fixupAt ctx (slotAddress ctx page slot) := by
  intro slot present different
  unfold fixupAt
  rw [relinked.untouched _ (slotAddress_apart (fresh slot present).symm)
    (slotAddress_apart (chain.slots_apart present member different))]

theorem Relinked.linked {first iter : Nat} {rest : List Nat}
    (relinked : Relinked ctx after page offset iter fixup)
    (chain : PageChain ctx page (first :: rest))
    (fresh : ∀ slot ∈ first :: rest, Apart offset 8 slot 8) (low : first < offset)
    (enough : rest.length < machoPageSize)
    (found : iter = seek (pageLink ctx page) offset machoPageSize first)
    (link : fixup.next = if pageLink ctx page iter = 0 then 0
      else pageLink ctx page iter - (offset - iter)) :
    Linked (pageLink after page) (first :: rest.orderedInsert (· ≤ ·) offset) := by
  have member : iter ∈ first :: rest :=
    found ▸ seek_mem (pageLink ctx page) offset first rest machoPageSize chain.linked
  have stops := seek_stops (pageLink ctx page) offset first rest machoPageSize
    chain.linked low enough
  have absent : offset ∉ rest := by
    intro present
    have side := fresh offset (by simp [present])
    unfold Apart at side
    omega
  have spliced := seek_spliced (pageLink ctx page) offset first rest machoPageSize
    chain.linked low absent enough
  rw [← found] at stops spliced
  have insertion : (first :: rest).orderedInsert (· ≤ ·) offset =
      first :: rest.orderedInsert (· ≤ ·) offset := by
    rw [orderedInsert_cons, if_neg (by omega)]
  apply spliced.congr
  intro slot present
  have addressEq : slotAddress after page slot = slotAddress ctx page slot := by
    simp only [slotAddress, relinked.fileOffset]
  simp only [pageLink, addressEq]
  rw [← insertion] at present
  rcases (mem_orderedInsert (· ≤ ·)).mp present with same | old
  · subst same
    rw [relinked.written, link, spliced_fresh _ _ _ (by omega)]
  · by_cases same : slot = iter
    · subst same
      rw [relinked.predecessor, spliced_before]
    · have different : slot ≠ offset := by
        have side := fresh slot old
        unfold Apart at side
        omega
      rw [relinked.others chain fresh member slot old same, spliced_other _ _ _ _ same different]
      rfl

/-- The last branch: the new slot follows `iter`, the last slot before it. -/
theorem spliced_after (fixup : Rebase) (first iter : Nat) (rest : List Nat)
    (bound : fixup.encode < u64) (stable : Rebase.decode fixup.encode = fixup)
    (inside : offset + 8 ≤ machoPageSize)
    (buffered : slotAddress ctx page offset + 8 ≤ ctx.prelinked.length)
    (chain : PageChain ctx page (first :: rest))
    (fresh : ∀ slot ∈ first :: rest, Apart offset 8 slot 8) (low : first < offset)
    (found : iter = seek (pageLink ctx page) offset machoPageSize first)
    (link : fixup.next = if pageLink ctx page iter = 0 then 0
      else pageLink ctx page iter - (offset - iter)) :
    Spliced ctx
      ((ctx.withFixup (slotAddress ctx page iter)
        { fixupAt ctx (slotAddress ctx page iter) with next := offset - iter }).withFixup
          (slotAddress ctx page offset) fixup)
      page offset (first :: rest) { fixup with next := 0 } := by
  have filled := length_mul_le 8 0 machoPageSize (first :: rest) (by simp) chain.apart
    (fun slot member => ⟨Nat.zero_le _, chain.inside slot member⟩)
  have enough : rest.length < machoPageSize := by
    simp only [length_cons, machoPageSize_val] at *
    omega
  have member : iter ∈ first :: rest :=
    found ▸ seek_mem (pageLink ctx page) offset first rest machoPageSize chain.linked
  have relinked := relinked_of_writes fixup bound stable inside buffered
    (chain.buffered iter member) (fresh iter member)
  have linked := relinked.linked chain fresh low enough found link
  generalize (ctx.withFixup (slotAddress ctx page iter) _).withFixup
    (slotAddress ctx page offset) fixup = after at relinked linked
  have insertion : (first :: rest).orderedInsert (· ≤ ·) offset =
      first :: rest.orderedInsert (· ≤ ·) offset := by
    rw [orderedInsert_cons, if_neg (by omega)]
  refine ⟨relinked.fileOffset, relinked.vmAddress, relinked.length, by rw [relinked.table], ?_, ?_,
    ?_, ?_, ?_⟩
  · intro other _
    simp only [pageStartOf, relinked.table]
  · intro address apartFresh apartSlots
    exact relinked.untouched address apartFresh (apartSlots iter member)
  · intro slot present
    by_cases same : slot = iter
    · subst same
      simp only [payloadAt, relinked.predecessor]
    · simp only [payloadAt, relinked.others chain fresh member slot present same]
  · simp only [payloadAt, relinked.written]
  · refine ⟨?_, ?_, ?_, orderedInsert_apart chain.apart fresh, ?_⟩
    · have head := chain.head
      rw [headD_cons] at head
      rw [insertion, headD_cons, pageStartOf, relinked.table]
      exact head
    · intro slot present
      rcases (mem_orderedInsert (· ≤ ·)).mp present with same | old
      · exact same ▸ inside
      · exact chain.inside slot old
    · intro slot present
      rw [slotAddress, relinked.fileOffset, relinked.length]
      rcases (mem_orderedInsert (· ≤ ·)).mp present with same | old
      · exact same ▸ buffered
      · exact chain.buffered slot old
    · rw [insertion]
      exact linked

end Splice

section Conversion
variable {ctx : Context} {reloc : RelocationInfo} {relocBase : Nat} {slots : List Nat}

theorem convert_spliced (table : ctx.kextsFixupChains.pageStart.length < u16)
    (placed : InSegment ctx reloc relocBase)
    (chain : PageChain ctx (newFixupPage ctx reloc relocBase) slots)
    (fresh : ∀ slot ∈ slots, Apart (newFixupPageOffset ctx reloc relocBase) 8 slot 8) :
    Spliced ctx (internalKcConvertRelocToFixup ctx reloc relocBase)
      (newFixupPage ctx reloc relocBase) (newFixupPageOffset ctx reloc relocBase)
      slots (newFixup ctx reloc relocBase 0) := by
  have indexed : newFixupPage ctx reloc relocBase < ctx.kextsFixupChains.pageStart.length := by
    rw [newFixupPage_eq table placed]
    exact placed.page
  have inside : newFixupPageOffset ctx reloc relocBase + 8 ≤ machoPageSize := placed.inside
  have destination := relocDest_eq table placed
  have buffered := placed.buffered
  rw [destination] at buffered
  have head : ctx.kextsFixupChains.pageStart.getD
      (newFixupPage ctx reloc relocBase) startNone = slots.headD startNone := chain.head
  have bound := newFixup_encode_lt ctx reloc relocBase
  have stable := decode_newFixup ctx reloc relocBase
  simp only [internalKcConvertRelocToFixup, head, destination]
  cases slots with
  | nil =>
    rw [headD_nil, if_pos rfl]
    exact spliced_head _ (bound 0) (stable 0) indexed inside buffered chain fresh
      (by simp) (by simp [newFixup])
  | cons first rest =>
    have firstInside := chain.inside first (by simp)
    have side := fresh first (by simp)
    simp only [machoPageSize_val] at firstInside inside
    have present : first ≠ startNone := by
      simp only [startNone]
      omega
    rw [headD_cons, if_neg present]
    by_cases precedes : newFixupPageOffset ctx reloc relocBase < first
    · rw [if_pos precedes]
      refine spliced_head _ (bound _) (stable _) indexed inside buffered chain fresh ?_ ?_
      · intro slot member
        rcases mem_cons.mp member with same | later
        · exact same ▸ precedes
        · have above := (pairwise_cons.mp chain.apart).1 slot later
          omega
      · simp only [newFixup, headD_cons]
        exact Nat.mod_eq_of_lt (by omega)
    · unfold Apart at side
      have low : first < newFixupPageOffset ctx reloc relocBase := by omega
      rw [if_neg precedes, lastFixupBefore_eq_seek _ _ _ _ low (by simpa using by omega)]
      generalize foundEq : seek (pageLink ctx (newFixupPage ctx reloc relocBase))
        (newFixupPageOffset ctx reloc relocBase) machoPageSize first = iter
      have stops := seek_stops (pageLink ctx (newFixupPage ctx reloc relocBase))
        (newFixupPageOffset ctx reloc relocBase) first rest machoPageSize chain.linked low
        chain.rest_lt
      rw [foundEq] at stops
      have small : pageLink ctx (newFixupPage ctx reloc relocBase) iter < 0x1000 :=
        Rebase.decode_next_lt _
      have delta : wrapSub u16 (newFixupPageOffset ctx reloc relocBase) iter =
          newFixupPageOffset ctx reloc relocBase - iter :=
        wrapSub_of_le (by omega) (by simp only [u16_val]; omega)
      rw [delta, Nat.mod_eq_of_lt (by omega :
        newFixupPageOffset ctx reloc relocBase - iter < 0x1000)]
      refine spliced_after _ first iter rest (bound _) (stable _) inside buffered chain fresh
        low foundEq.symm ?_
      show (if pageLink ctx (newFixupPage ctx reloc relocBase) iter ≠ 0 then
        wrapSub u16 (pageLink ctx (newFixupPage ctx reloc relocBase) iter)
          (newFixupPageOffset ctx reloc relocBase - iter) else 0) % 0x1000 = _
      by_cases final : pageLink ctx (newFixupPage ctx reloc relocBase) iter = 0
      · simp [final]
      · have ordered : newFixupPageOffset ctx reloc relocBase - iter ≤
            pageLink ctx (newFixupPage ctx reloc relocBase) iter := by omega
        rw [if_pos final, if_neg final, wrapSub_of_le ordered (by simp only [u16_val]; omega)]
        exact Nat.mod_eq_of_lt (by omega)

end Conversion

section Run
variable {relocBase : Nat}

/-- What a run of conversions does to chains `earlier` that were there before:
the chains `later` have the old and the new slots, old payloads are kept, and
every new slot holds the fixup of the value it had. -/
structure Reindexed (before after : Context) (relocBase : Nat)
    (relocations : List RelocationInfo) (earlier later : Nat → List Nat) : Prop where
  fileOffset : after.kextsFileOffset = before.kextsFileOffset
  table : after.kextsFixupChains.pageStart.length = before.kextsFixupChains.pageStart.length
  chains : ∀ page, page < before.kextsFixupChains.pageStart.length →
    PageChain after page (later page)
  members : ∀ page offset, offset ∈ later page ↔ offset ∈ earlier page ∨
    ∃ reloc ∈ relocations, newFixupPage before reloc relocBase = page ∧
      newFixupPageOffset before reloc relocBase = offset
  fresh : ∀ reloc ∈ relocations,
    payloadAt after (relocDest before reloc relocBase) = newFixup before reloc relocBase 0
  kept : ∀ page, page < before.kextsFixupChains.pageStart.length →
    ∀ offset ∈ earlier page, payloadAt after (slotAddress before page offset) =
      payloadAt before (slotAddress before page offset)

theorem relocOffsetInSeg_congr (relocBase : Nat) {before after : Context}
    (same : after.kextsVmAddress = before.kextsVmAddress) (reloc : RelocationInfo) :
    relocOffsetInSeg after reloc relocBase = relocOffsetInSeg before reloc relocBase := by
  simp only [relocOffsetInSeg, same]

theorem slotAddress_pages_apart (ctx : Context) {page page' offset offset' : Nat}
    (different : page ≠ page') (inside : offset + 8 ≤ machoPageSize)
    (inside' : offset' + 8 ≤ machoPageSize) :
    Apart (slotAddress ctx page offset) 8 (slotAddress ctx page' offset') 8 := by
  simp only [Apart, slotAddress, machoPageSize_val] at *
  omega

theorem pageOffset_apart {ctx : Context} {left right : RelocationInfo}
    (table : ctx.kextsFixupChains.pageStart.length < u16)
    (leftPlaced : InSegment ctx left relocBase) (rightPlaced : InSegment ctx right relocBase)
    (samePage : newFixupPage ctx left relocBase = newFixupPage ctx right relocBase)
    (apart : Apart (relocOffsetInSeg ctx left relocBase) 8
      (relocOffsetInSeg ctx right relocBase) 8) :
    Apart (newFixupPageOffset ctx left relocBase) 8
      (newFixupPageOffset ctx right relocBase) 8 := by
  rw [newFixupPage_eq table leftPlaced, newFixupPage_eq table rightPlaced] at samePage
  simp only [Apart, newFixupPageOffset, machoPageSize_val] at *
  omega

def withSlot (chains : Nat → List Nat) (page offset : Nat) : Nat → List Nat :=
  Function.update chains page ((chains page).orderedInsert (· ≤ ·) offset)

theorem mem_withSlot {chains : Nat → List Nat} {page offset other slot : Nat} :
    slot ∈ withSlot chains page offset other ↔
      slot ∈ chains other ∨ (page = other ∧ offset = slot) := by
  unfold withSlot
  by_cases same : other = page
  · subst same
    rw [Function.update_self, mem_orderedInsert]
    constructor
    · rintro (equal | old)
      · exact Or.inr ⟨rfl, equal.symm⟩
      · exact Or.inl old
    · rintro (old | ⟨_, equal⟩)
      · exact Or.inr old
      · exact Or.inl equal.symm
  · rw [Function.update_of_ne same]
    constructor
    · exact Or.inl
    · rintro (old | ⟨equal, _⟩)
      · exact old
      · exact absurd equal.symm same

section Frame
variable {ctx next : Context} {page offset : Nat} {slots : List Nat} {payload : Rebase}

variable (step : Spliced ctx next page offset slots payload)
include step

theorem Spliced.slotAddress_eq
    (other slot : Nat) : slotAddress next other slot = slotAddress ctx other slot := by
  simp only [slotAddress, step.fileOffset]

theorem Spliced.relocDest_eq
    (other : RelocationInfo) : relocDest next other relocBase = relocDest ctx other relocBase := by
  simp only [relocDest, relocOffsetInSeg_congr relocBase step.vmAddress, step.fileOffset]

theorem Spliced.newFixupPage_eq (other : RelocationInfo) :
    newFixupPage next other relocBase = newFixupPage ctx other relocBase := by
  simp only [newFixupPage, relocOffsetInSeg_congr relocBase step.vmAddress]

theorem Spliced.newFixupPageOffset_eq (other : RelocationInfo) :
    newFixupPageOffset next other relocBase = newFixupPageOffset ctx other relocBase := by
  simp only [newFixupPageOffset, relocOffsetInSeg_congr relocBase step.vmAddress]

theorem Spliced.inSegment {other : RelocationInfo} (placed : InSegment ctx other relocBase) :
    InSegment next other relocBase where
  page := by
    rw [relocOffsetInSeg_congr relocBase step.vmAddress, step.table]
    exact placed.page
  inside := by
    rw [relocOffsetInSeg_congr relocBase step.vmAddress]
    exact placed.inside
  buffered := by
    rw [step.relocDest_eq, step.length]
    exact placed.buffered

theorem Spliced.elsewhere (inside : offset + 8 ≤ machoPageSize) (chain : PageChain ctx page slots)
    {other slot : Nat} (different : other ≠ page) (slotInside : slot + 8 ≤ machoPageSize) :
    load next.prelinked 8 (slotAddress ctx other slot) =
      load ctx.prelinked 8 (slotAddress ctx other slot) := by
  apply step.untouched
  · exact slotAddress_pages_apart ctx different slotInside inside
  · intro old present
    exact slotAddress_pages_apart ctx different slotInside (chain.inside old present)

end Frame

section Turn
variable {ctx next : Context} {reloc : RelocationInfo} {rest : List RelocationInfo}
  {earlier : Nat → List Nat}

theorem convert_pending {other : RelocationInfo}
    (table : ctx.kextsFixupChains.pageStart.length < u16)
    (own : PageChain ctx (newFixupPage ctx reloc relocBase)
      (earlier (newFixupPage ctx reloc relocBase)))
    (placed : InSegment ctx reloc relocBase) (otherPlaced : InSegment ctx other relocBase)
    (apart : Apart (relocOffsetInSeg ctx other relocBase) 8
      (relocOffsetInSeg ctx reloc relocBase) 8)
    (fresh : ∀ slot ∈ earlier (newFixupPage ctx other relocBase),
      Apart (newFixupPageOffset ctx other relocBase) 8 slot 8)
    (step : Spliced ctx next (newFixupPage ctx reloc relocBase)
      (newFixupPageOffset ctx reloc relocBase)
      (earlier (newFixupPage ctx reloc relocBase)) (newFixup ctx reloc relocBase 0)) :
    newFixup next other relocBase 0 = newFixup ctx other relocBase 0 := by
  have elsewhere := relocDest_eq table otherPlaced
  have unchanged : load next.prelinked 8 (relocDest ctx other relocBase) =
      load ctx.prelinked 8 (relocDest ctx other relocBase) := by
    rw [elsewhere]
    apply step.untouched
    · rw [← elsewhere, ← relocDest_eq table placed]
      simp only [relocDest, Apart] at *
      omega
    · intro slot present
      by_cases samePage : newFixupPage ctx other relocBase = newFixupPage ctx reloc relocBase
      · rw [samePage]
        rw [samePage] at fresh
        exact slotAddress_apart (fresh slot present)
      · exact slotAddress_pages_apart ctx samePage otherPlaced.inside (own.inside slot present)
  simp only [newFixup, step.relocDest_eq, unchanged]

variable (table : ctx.kextsFixupChains.pageStart.length < u16)
  (chains : ∀ page, page < ctx.kextsFixupChains.pageStart.length →
    PageChain ctx page (earlier page))
  (placed : InSegment ctx reloc relocBase)
  (step : Spliced ctx next (newFixupPage ctx reloc relocBase)
    (newFixupPageOffset ctx reloc relocBase)
    (earlier (newFixupPage ctx reloc relocBase)) (newFixup ctx reloc relocBase 0))
include table chains placed step

theorem convert_chains (page : Nat) (indexed : page < ctx.kextsFixupChains.pageStart.length) :
    PageChain next page (withSlot earlier (newFixupPage ctx reloc relocBase)
      (newFixupPageOffset ctx reloc relocBase) page) := by
  unfold withSlot
  by_cases same : page = newFixupPage ctx reloc relocBase
  · subst same
    rw [Function.update_self]
    exact step.chain
  · rw [Function.update_of_ne same]
    have chain := chains page indexed
    have own := chains (newFixupPage ctx reloc relocBase)
      (by rw [newFixupPage_eq table placed]; exact placed.page)
    refine ⟨(step.otherPages page same).trans chain.head, chain.inside, ?_, chain.apart, ?_⟩
    · intro offset member
      rw [step.slotAddress_eq, step.length]
      exact chain.buffered offset member
    · apply chain.linked.congr
      intro offset member
      have unchanged := step.elsewhere placed.inside own same (chain.inside offset member)
      simp only [pageLink, fixupAt, step.slotAddress_eq, unchanged]

theorem Reindexed.cons {after : Context} {later : Nat → List Nat}
    (pending : ∀ other ∈ rest, newFixup next other relocBase 0 = newFixup ctx other relocBase 0)
    (run : Reindexed next after relocBase rest (withSlot earlier
      (newFixupPage ctx reloc relocBase) (newFixupPageOffset ctx reloc relocBase)) later) :
    Reindexed ctx after relocBase (reloc :: rest) earlier later := by
  have indexed : newFixupPage ctx reloc relocBase < ctx.kextsFixupChains.pageStart.length := by
    rw [newFixupPage_eq table placed]
    exact placed.page
  refine ⟨run.fileOffset.trans step.fileOffset, run.table.trans step.table, ?_, ?_, ?_, ?_⟩
  · intro page bound
    exact run.chains page (by rw [step.table]; exact bound)
  · intro page offset
    rw [run.members, mem_withSlot]
    simp only [step.newFixupPage_eq, step.newFixupPageOffset_eq, mem_cons, exists_eq_or_imp,
      or_assoc]
  · intro other member
    rcases mem_cons.mp member with same | later
    · subst same
      have kept := run.kept _ (by rw [step.table]; exact indexed) _
        (mem_withSlot.mpr (Or.inr ⟨rfl, rfl⟩))
      rw [step.slotAddress_eq, step.fresh] at kept
      rw [relocDest_eq table placed]
      exact kept
    · have built := run.fresh other later
      rw [step.relocDest_eq, pending other later] at built
      exact built
  · intro page bound offset member
    have kept := run.kept page (by rw [step.table]; exact bound) offset
      (mem_withSlot.mpr (Or.inl member))
    rw [step.slotAddress_eq] at kept
    rw [kept]
    by_cases same : page = newFixupPage ctx reloc relocBase
    · subst same
      exact step.kept offset member
    · have unchanged := step.elsewhere placed.inside (chains _ indexed) same
        ((chains page bound).inside offset member)
      simp only [payloadAt, fixupAt, unchanged]

end Turn

-- Induction on the relocations left. The pending ones have not been written
-- yet, so the values their fixups are built from are still the original ones.
theorem convertRelocations_reindexed (relocations : List RelocationInfo) (ctx : Context)
    (earlier : Nat → List Nat)
    (table : ctx.kextsFixupChains.pageStart.length < u16)
    (chains : ∀ page, page < ctx.kextsFixupChains.pageStart.length →
      PageChain ctx page (earlier page))
    (placed : ∀ reloc ∈ relocations, InSegment ctx reloc relocBase)
    (distinct : relocations.Pairwise fun left right =>
      Apart (relocOffsetInSeg ctx left relocBase) 8
        (relocOffsetInSeg ctx right relocBase) 8)
    (fresh : ∀ reloc ∈ relocations, ∀ slot ∈ earlier (newFixupPage ctx reloc relocBase),
        Apart (newFixupPageOffset ctx reloc relocBase) 8 slot 8) :
    ∃ later, Reindexed ctx (convertRelocations ctx relocBase relocations) relocBase
      relocations earlier later := by
  induction relocations generalizing ctx earlier with
  | nil =>
    refine ⟨earlier, rfl, rfl, chains, by simp, by simp, ?_⟩
    intro page _ offset _
    rfl
  | cons reloc rest ih =>
    have here := placed reloc (by simp)
    have indexed : newFixupPage ctx reloc relocBase < ctx.kextsFixupChains.pageStart.length := by
      rw [newFixupPage_eq table here]
      exact here.page
    obtain ⟨head, tail⟩ := pairwise_cons.mp distinct
    have step := convert_spliced table here (chains _ indexed)
      (fun slot member => fresh reloc (by simp) slot member)
    have grown := convert_chains table chains here step
    obtain ⟨later, run⟩ := ih (internalKcConvertRelocToFixup ctx reloc relocBase)
      (withSlot earlier (newFixupPage ctx reloc relocBase)
        (newFixupPageOffset ctx reloc relocBase))
      (by rw [step.table]; exact table)
      (by rw [step.table]; exact grown)
      (fun other member => step.inSegment (placed other (by simp [member])))
      (by simpa only [relocOffsetInSeg_congr relocBase step.vmAddress] using tail)
      (by
        intro other member slot present
        rw [step.newFixupPage_eq] at present
        rw [step.newFixupPageOffset_eq]
        rcases mem_withSlot.mp present with old | ⟨samePage, same⟩
        · exact fresh other (by simp [member]) slot old
        · rw [← same]
          exact pageOffset_apart table (placed other (by simp [member])) here samePage.symm
            (head other member).symm)
    have pending : ∀ other ∈ rest,
        newFixup (internalKcConvertRelocToFixup ctx reloc relocBase) other relocBase 0 =
          newFixup ctx other relocBase 0 := by
      intro other member
      exact convert_pending table (chains _ indexed) here (placed other (by simp [member]))
        (head other member).symm (fresh other (by simp [member])) step
    exact ⟨later, Reindexed.cons table chains here step pending run⟩

end Run

/-- A slot with no authentication bit is no kernel address, so its value is
taken from the target. -/
theorem kcFixupValue_of_payload (value : Nat) (bound : value < u64)
    (plain : (Rebase.decode value).isAuth = 0) :
    kcFixupValue value =
      ((Rebase.decode value).target + kernelFixupOffset + kernelAddressBase) % u64 := by
  have low : value < 0x8000000000000000 := by
    simp only [Rebase.decode, u64_val] at plain bound
    omega
  have masked : value &&& kernelAddressMask ≤ value := Nat.and_le_left
  have notBase : value &&& kernelAddressMask ≠ kernelAddressBase := by
    simp only [kernelAddressBase]
    omega
  have notKext : value &&& kernelAddressMask ≠ kernelAddressKext := by
    simp only [kernelAddressKext]
    omega
  rw [kcFixupValue, if_pos ⟨notBase, notKext⟩]

theorem newFixup_target {ctx : Context} {reloc : RelocationInfo} {relocBase value : Nat}
    (original : load ctx.prelinked 8 (relocDest ctx reloc relocBase) = value)
    (low : kernelAddressBase + kernelFixupOffset ≤ value)
    (high : value < kernelAddressBase + kernelFixupOffset + 0x40000000) :
    (newFixup ctx reloc relocBase 0).target = value - (kernelAddressBase + kernelFixupOffset) := by
  simp only [newFixup, original, wrapSub, kernelAddressBase, kernelFixupOffset, u64_val] at *
  omega

theorem markDylibInCache_chains {ctx : Context} {headerOffset page : Nat}
    {slots : List Nat} (header : headerOffset + 28 ≤ ctx.prelinked.length)
    (outside : ∀ slot ∈ slots, Apart (slotAddress ctx page slot) 8 (headerOffset + 24) 4)
    (chain : PageChain ctx page slots) :
    PageChain (markDylibInCache ctx headerOffset) page slots := by
  refine ⟨chain.head, chain.inside, ?_, chain.apart, ?_⟩
  · intro slot member
    simp only [markDylibInCache, store_length]
    exact chain.buffered slot member
  · apply chain.linked.congr
    intro slot member
    have kept : load (markDylibInCache ctx headerOffset).prelinked 8
        (slotAddress ctx page slot) = load ctx.prelinked 8 (slotAddress ctx page slot) :=
      load_store_apart _ _ _ _ _ _ (by omega) (outside slot member).symm
    exact congrArg (fun value => (Rebase.decode value).next) kept

/-- The relocations of a kext that can be indexed next to the chains `earlier`:
every slot lies in one page of the segment and no two slots overlap. -/
structure Indexable (ctx : Context) (image : KextImage)
    (relocations : List RelocationInfo) (earlier : Nat → List Nat) : Prop where
  listed : image.relocations = some relocations
  table : ctx.kextsFixupChains.pageStart.length < u16
  header : image.headerOffset + 28 ≤ ctx.prelinked.length
  outside : ∀ page, page < ctx.kextsFixupChains.pageStart.length →
    ∀ slot ∈ earlier page, Apart (slotAddress ctx page slot) 8 (image.headerOffset + 24) 4
  chains : ∀ page, page < ctx.kextsFixupChains.pageStart.length →
    PageChain ctx page (earlier page)
  placed : ∀ reloc ∈ relocations, InSegment ctx reloc image.firstSegmentAddress
  distinct : relocations.Pairwise fun left right =>
    Apart (relocOffsetInSeg ctx left image.firstSegmentAddress) 8
      (relocOffsetInSeg ctx right image.firstSegmentAddress) 8
  fresh : ∀ reloc ∈ relocations,
    ∀ slot ∈ earlier (newFixupPage ctx reloc image.firstSegmentAddress),
      Apart (newFixupPageOffset ctx reloc image.firstSegmentAddress) 8 slot 8

section Indexing
variable {ctx : Context} {image : KextImage} {relocations : List RelocationInfo}
  {earlier : Nat → List Nat}

theorem kcKextIndexFixups_eq (listed : image.relocations = some relocations) :
    kcKextIndexFixups ctx image = convertRelocations
      (markDylibInCache ctx image.headerOffset) image.firstSegmentAddress relocations := by
  simp only [kcKextIndexFixups, listed]

-- Marking the header touches no chain, so indexing is the run of conversions.
theorem kcKextIndexFixups_reindexed (indexable : Indexable ctx image relocations earlier) :
    ∃ later, Reindexed (markDylibInCache ctx image.headerOffset)
      (kcKextIndexFixups ctx image) image.firstSegmentAddress relocations earlier later := by
  have length : (markDylibInCache ctx image.headerOffset).prelinked.length =
      ctx.prelinked.length := store_length _ _ _ _
  rw [kcKextIndexFixups_eq indexable.listed]
  apply convertRelocations_reindexed relocations
    (markDylibInCache ctx image.headerOffset) earlier
  · exact indexable.table
  · intro page bound
    exact markDylibInCache_chains indexable.header (indexable.outside page bound)
      (indexable.chains page bound)
  · intro reloc member
    have here := indexable.placed reloc member
    exact ⟨here.page, here.inside, length ▸ here.buffered⟩
  · exact indexable.distinct
  · exact indexable.fresh

theorem markDylibInCache_payload (indexable : Indexable ctx image relocations earlier)
    {page slot : Nat} (bound : page < ctx.kextsFixupChains.pageStart.length)
    (member : slot ∈ earlier page) :
    payloadAt (markDylibInCache ctx image.headerOffset) (slotAddress ctx page slot) =
      payloadAt ctx (slotAddress ctx page slot) := by
  have header := indexable.header
  have unmarked : load (markDylibInCache ctx image.headerOffset).prelinked 8
      (slotAddress ctx page slot) = load ctx.prelinked 8 (slotAddress ctx page slot) :=
    load_store_apart _ _ _ _ _ _ (by omega) (indexable.outside page bound slot member).symm
  simp only [payloadAt, fixupAt, unmarked]

theorem kcFixupValue_newFixup {reloc : RelocationInfo} {relocBase value fixup : Nat}
    (original : load ctx.prelinked 8 (relocDest ctx reloc relocBase) = value)
    (low : kernelAddressBase + kernelFixupOffset ≤ value)
    (high : value < kernelAddressBase + kernelFixupOffset + 0x40000000) (bound : fixup < u64)
    (payload : ({ Rebase.decode fixup with next := 0 } : Rebase) = newFixup ctx reloc relocBase 0) :
    kcFixupValue fixup = value := by
  have target := newFixup_target original low high
  have plain : (Rebase.decode fixup).isAuth = 0 := congrArg Rebase.isAuth payload
  have aimed : (Rebase.decode fixup).target = value - (kernelAddressBase + kernelFixupOffset) :=
    (congrArg Rebase.target payload).trans target
  rw [kcFixupValue_of_payload fixup bound plain, aimed]
  simp only [kernelAddressBase, kernelFixupOffset, u64_val] at *
  omega

theorem kc_kext_index_fixups_chains (ctx : Context) (image : KextImage)
    (relocations : List RelocationInfo) (earlier : Nat → List Nat)
    (indexable : Indexable ctx image relocations earlier) :
    (∀ page, page < ctx.kextsFixupChains.pageStart.length →
      (chainOf (kcKextIndexFixups ctx image) page).Pairwise (· < ·) ∧
      (∀ nonempty : chainOf (kcKextIndexFixups ctx image) page ≠ [],
        pageLink (kcKextIndexFixups ctx image) page
          ((chainOf (kcKextIndexFixups ctx image) page).getLast nonempty) = 0) ∧
      (∀ offset, offset ∈ chainOf (kcKextIndexFixups ctx image) page ↔
        offset ∈ earlier page ∨
        ∃ reloc ∈ relocations,
          newFixupPage ctx reloc image.firstSegmentAddress = page ∧
          newFixupPageOffset ctx reloc image.firstSegmentAddress = offset)) ∧
    (∀ page, page < ctx.kextsFixupChains.pageStart.length →
      ∀ slot ∈ earlier page,
        payloadAt (kcKextIndexFixups ctx image) (slotAddress ctx page slot) =
          payloadAt ctx (slotAddress ctx page slot)) ∧
    (∀ reloc ∈ relocations, ∀ value,
      load (markDylibInCache ctx image.headerOffset).prelinked 8
        (relocDest ctx reloc image.firstSegmentAddress) = value →
      kernelAddressBase + kernelFixupOffset ≤ value →
      value < kernelAddressBase + kernelFixupOffset + 0x40000000 →
      kcFixupValue (load (kcKextIndexFixups ctx image).prelinked 8
        (relocDest ctx reloc image.firstSegmentAddress)) = value) := by
  obtain ⟨later, run⟩ := kcKextIndexFixups_reindexed indexable
  refine ⟨?_, ?_, ?_⟩
  · intro page bound
    have chain := run.chains page bound
    rw [chain.chainOf_eq]
    exact ⟨chain.linked.pairwise, chain.linked.last_zero, run.members page⟩
  · intro page bound slot member
    exact (run.kept page bound slot member).trans
      (markDylibInCache_payload indexable bound member)
  · intro reloc member value original low high
    exact kcFixupValue_newFixup original low high (load_lt _ 8 _) (run.fresh reloc member)

end Indexing

def sampleImage : KextImage where
  headerOffset := 0
  firstSegmentAddress := 0
  relocations := some [⟨72, false, 0⟩, ⟨120, false, 0⟩, ⟨40, false, 0⟩, ⟨64, false, 0⟩]

/-- A page with the fixups 48 and 104, and a kernel address to index at 72. -/
def sampleContext : Context where
  prelinked := store (store (store (replicate 128 0) 8 48 0x1C0000000001000) 8 104 0x2000) 8
    72 (kernelAddressBase + kernelFixupOffset + 0x1234)
  kextsFileOffset := 0
  kextsVmAddress := 0
  kextsFixupChainsOffset := 0
  kextsFixupChains := ⟨26, 4096, 11, 0, 0, 1, [48]⟩

/-- Slots before, between and behind those of the page. -/
theorem kc_kext_index_fixups_chains_sample :
    let indexed := kcKextIndexFixups sampleContext sampleImage
    (chainOf indexed 0).Pairwise (· < ·) ∧
      (∀ offset ∈ [40, 48, 64, 72, 104, 120], offset ∈ chainOf indexed 0) ∧
      payloadAt indexed 48 = payloadAt sampleContext 48 ∧
      kcFixupValue (load indexed.prelinked 8 72) =
        kernelAddressBase + kernelFixupOffset + 0x1234 := by
  have length : sampleContext.prelinked.length = 128 := by
    simp only [sampleContext, store_length, length_replicate]
  have indexable : Indexable sampleContext sampleImage
      [⟨72, false, 0⟩, ⟨120, false, 0⟩, ⟨40, false, 0⟩, ⟨64, false, 0⟩] (fun _ => [48, 104]) := by
    refine ⟨rfl, by decide, by rw [length]; decide, by decide, ?_, ?_, by decide, by decide⟩
    · intro page bound
      obtain rfl : page = 0 := Nat.lt_one_iff.mp bound
      refine ⟨rfl, by decide, ?_, by decide, by decide, by decide, (by decide : pageLink _ 0 104 = 0)⟩
      rw [length]
      decide
    · intro reloc member
      refine ⟨?_, ?_, ?_⟩
      · revert reloc
        decide
      · revert reloc
        decide
      · rw [length]
        revert reloc
        decide
  obtain ⟨chains, kept, values⟩ := kc_kext_index_fixups_chains _ _ _ _ indexable
  obtain ⟨sorted, _, members⟩ := chains 0 (by decide)
  refine ⟨sorted, fun offset listed => (members offset).mpr ?_, kept 0 (by decide) 48 (by decide),
    values ⟨72, false, 0⟩ (by decide) _ (by decide) (by decide) (by decide)⟩
  revert offset
  decide

end OpenCore.FixupChains
