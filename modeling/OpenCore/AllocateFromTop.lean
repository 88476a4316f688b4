import OpenCore.MemoryMapShrink

/-!
`OcAllocatePagesFromTop`: the descriptors of the memory map are searched from the last one on for
free memory below a limit, and the pages are taken from the top of what a descriptor has there.
The limit is also where the range is kept, so that a range that may not be used lowers it for
the descriptors that follow.
-/

namespace OpenCore.AllocateFromTop

open Base MemoryAttributes MemoryMapPages MemoryMapShrink List

section Source

def topBelow (pages memory : Nat) (desc : MemoryDescriptor) : Option Nat :=
  if desc.type = efiConventionalMemory ∧ pages ≤ desc.numberOfPages ∧
      (desc.physicalStart + efiPagesToSize pages) % u64 ≤ memory then
    if (desc.physicalStart + efiPagesToSize desc.numberOfPages) % u64 ≤ memory then
      some ((desc.physicalStart + efiPagesToSize (desc.numberOfPages - pages)) % u64)
    else some (wrapSub u64 memory (efiPagesToSize pages))
  else none

def isRestricted (checkRange : Option (Nat → Nat → Bool)) (pages top : Nat) : Bool :=
  match checkRange with
  | none => false
  | some check => check top (efiPagesToSize pages)

/-- Whether a block was found, and `*Memory`. The descriptors come from the last one on. -/
def searchTop (pages : Nat) (checkRange : Option (Nat → Nat → Bool)) :
    List MemoryDescriptor → Nat → Bool × Nat
  | [], memory => (false, memory)
  | desc :: rest, memory =>
    match topBelow pages memory desc with
    | none => searchTop pages checkRange rest memory
    | some top =>
      if isRestricted checkRange pages top then searchTop pages checkRange rest top
      else (true, top)

structure TopAllocation where
  status : EfiStatus
  memory : Nat
  asked : Bool
  deriving DecidableEq

/-- The memory map is what `OcGetCurrentMemoryMapAlloc` returns, or its error. The allocator takes
the given address or fails. -/
def ocAllocatePagesFromTop (getMemoryMap : Except EfiStatus (List MemoryDescriptor))
    (allocatePages : Nat → EfiStatus) (checkRange : Option (Nat → Nat → Bool)) (pages memory : Nat) :
    TopAllocation :=
  match getMemoryMap with
  | .error status => ⟨status, memory, false⟩
  | .ok memoryMap =>
    match searchTop pages checkRange memoryMap.reverse memory with
    | (true, top) => ⟨allocatePages top, top, true⟩
    | (false, top) => ⟨.notFound, top, false⟩

end Source

section Candidates
variable {desc : MemoryDescriptor} {pages limit running : Nat}

structure Placed (desc : MemoryDescriptor) : Prop where
  aligned : desc.physicalStart % efiPageSize = 0
  bounded : ending desc < u64

def Fits (pages limit : Nat) (desc : MemoryDescriptor) : Prop :=
  desc.type = efiConventionalMemory ∧ pages ≤ desc.numberOfPages ∧
    desc.physicalStart + pages * efiPageSize ≤ limit

instance (pages limit : Nat) (desc : MemoryDescriptor) : Decidable (Fits pages limit desc) :=
  inferInstanceAs (Decidable (_ ∧ _ ∧ _))

def highest (pages limit : Nat) (desc : MemoryDescriptor) : Nat :=
  min (ending desc) limit - pages * efiPageSize

theorem topBelow_eq (placed : Placed desc) (bounded : limit < u64) :
    topBelow pages limit desc =
      if Fits pages limit desc then some (highest pages limit desc) else none := by
  have ends : ending desc = desc.physicalStart + desc.numberOfPages * efiPageSize := rfl
  have below := placed.bounded
  unfold topBelow
  by_cases enough : pages ≤ desc.numberOfPages
  · have less : pages * efiPageSize ≤ desc.numberOfPages * efiPageSize := Nat.mul_le_mul_right _ enough
    have size : efiPagesToSize pages = pages * efiPageSize := Nat.mod_eq_of_lt (by omega)
    have whole : efiPagesToSize desc.numberOfPages = desc.numberOfPages * efiPageSize :=
      Nat.mod_eq_of_lt (by omega)
    have left : efiPagesToSize (desc.numberOfPages - pages) =
        desc.numberOfPages * efiPageSize - pages * efiPageSize := by
      rw [efiPagesToSize, Nat.sub_mul, Nat.mod_eq_of_lt (by omega)]
    rw [size, whole, left, Nat.mod_eq_of_lt (by omega), Nat.mod_eq_of_lt (by omega),
      Nat.mod_eq_of_lt (by omega), ← ends]
    by_cases fits : Fits pages limit desc
    · have conditions : desc.type = efiConventionalMemory ∧ pages ≤ desc.numberOfPages ∧
        desc.physicalStart + pages * efiPageSize ≤ limit := fits
      rw [if_pos fits, if_pos conditions, highest]
      split
      · rename_i under
        rw [min_eq_left under, ends, Nat.add_sub_assoc less]
      · rename_i above
        rw [min_eq_right (Nat.le_of_not_le above), wrapSub_of_le (by omega) bounded]
    · rw [if_neg fits]
      exact if_neg fits
  · rw [if_neg fun fits => enough fits.2.1, if_neg fun fits : Fits pages limit desc => enough fits.2.1]

theorem topBelow_eq_some (placed : Placed desc) (bounded : limit < u64) {top : Nat} :
    topBelow pages limit desc = some top ↔
      Fits pages limit desc ∧ top = highest pages limit desc := by
  rw [topBelow_eq placed bounded]
  split
  · rename_i fits
    rw [Option.some.injEq, eq_comm]
    exact ⟨fun same => ⟨fits, same⟩, And.right⟩
  · rename_i unfit
    constructor
    · intro clash
      cases clash
    · exact fun both => absurd both.1 unfit

theorem topBelow_lower (placed : Placed desc) (bounded : limit < u64) (lower : running ≤ limit) :
    topBelow pages running desc = topBelow pages limit desc ↔
      ((topBelow pages limit desc).isSome = true → ending desc ≤ running ∨ running = limit) := by
  have runningBounded := lt_of_le_of_lt lower bounded
  rw [topBelow_eq placed bounded, topBelow_eq placed runningBounded]
  by_cases fits : Fits pages limit desc
  · have within : desc.physicalStart + pages * efiPageSize ≤ ending desc := by
      have less := Nat.mul_le_mul_right efiPageSize fits.2.1
      rw [ending]
      omega
    have low := fits.2.2
    rw [if_pos fits]
    by_cases still : Fits pages running desc
    · have runningLow := still.2.2
      rw [if_pos still, Option.some.injEq, highest, highest]
      simp only [Option.isSome_some, true_implies]
      omega
    · have above : running < desc.physicalStart + pages * efiPageSize := by
        by_contra under
        exact still ⟨fits.1, fits.2.1, Nat.le_of_not_lt under⟩
      rw [if_neg still]
      simp only [Option.isSome_some, true_implies, reduceCtorEq, false_iff]
      omega
  · have unfit : ¬Fits pages running desc := fun still =>
      fits ⟨still.1, still.2.1, still.2.2.trans lower⟩
    rw [if_neg fits, if_neg unfit]
    simp

end Candidates

section Search
variable {pages limit : Nat} {checkRange : Option (Nat → Nat → Bool)}
  {earlier later down : List MemoryDescriptor} {desc : MemoryDescriptor}

theorem searchTop_append (memory : Nat) :
    searchTop pages checkRange (earlier ++ later) memory =
      if (searchTop pages checkRange earlier memory).1 then searchTop pages checkRange earlier memory
      else searchTop pages checkRange later (searchTop pages checkRange earlier memory).2 := by
  induction earlier generalizing memory with
  | nil => rfl
  | cons first rest ih =>
    rw [cons_append, searchTop, searchTop]
    split
    · exact ih memory
    · split
      · exact ih _
      · rfl

theorem searchTop_found {memory top : Nat}
    (result : searchTop pages checkRange down memory = (true, top)) :
    ∃ earlier desc later, down = earlier ++ desc :: later ∧
      (searchTop pages checkRange earlier memory).1 = false ∧
      topBelow pages (searchTop pages checkRange earlier memory).2 desc = some top ∧
      isRestricted checkRange pages top = false := by
  induction down generalizing memory with
  | nil => cases result
  | cons first rest ih =>
    rw [searchTop] at result
    split at result
    · rename_i unfit
      obtain ⟨earlier, desc, later, rfl, missed, found, free⟩ := ih result
      refine ⟨first :: earlier, desc, later, rfl, ?_⟩
      rw [searchTop, unfit]
      exact ⟨missed, found, free⟩
    · rename_i start fits
      split at result
      · rename_i restricted
        obtain ⟨earlier, desc, later, rfl, missed, found, free⟩ := ih result
        refine ⟨first :: earlier, desc, later, rfl, ?_⟩
        rw [searchTop, fits]
        simp only [restricted, if_true]
        exact ⟨missed, found, free⟩
      · rename_i free
        cases result
        exact ⟨[], first, rest, rfl, rfl, fits, (Bool.not_eq_true _).mp free⟩

def AllRestricted (pages limit : Nat) (checkRange : Option (Nat → Nat → Bool))
    (descs : List MemoryDescriptor) : Prop :=
  ∀ desc ∈ descs, ∀ top, topBelow pages limit desc = some top →
    isRestricted checkRange pages top = true

/-- Each descriptor that the search comes to offers what it does below the limit of the request. -/
def KeepsLimit (pages limit : Nat) (checkRange : Option (Nat → Nat → Bool))
    (down : List MemoryDescriptor) : Prop :=
  ∀ earlier desc later, down = earlier ++ desc :: later →
    (searchTop pages checkRange earlier limit).1 = false →
      topBelow pages (searchTop pages checkRange earlier limit).2 desc = topBelow pages limit desc

theorem KeepsLimit.front (keeps : KeepsLimit pages limit checkRange (earlier ++ later)) :
    KeepsLimit pages limit checkRange earlier := by
  rintro front desc rear rfl
  exact keeps front desc (rear ++ later) (by rw [append_assoc, cons_append])

/-- While the limit makes no difference, the search goes on exactly past ranges that may not be
used, and the limit is the lowest of these. -/
theorem KeepsLimit.walk (keeps : KeepsLimit pages limit checkRange earlier)
    (placed : ∀ desc ∈ earlier, Placed desc) (bounded : limit < u64) :
    ((searchTop pages checkRange earlier limit).1 = false ↔
        AllRestricted pages limit checkRange earlier) ∧
      (AllRestricted pages limit checkRange earlier →
        ((searchTop pages checkRange earlier limit).2 = limit ∨ ∃ desc ∈ earlier,
          topBelow pages limit desc = some (searchTop pages checkRange earlier limit).2) ∧
        (searchTop pages checkRange earlier limit).2 ≤ limit ∧
        ∀ desc ∈ earlier, ∀ top, topBelow pages limit desc = some top →
          (searchTop pages checkRange earlier limit).2 ≤ top) := by
  induction earlier using List.reverseRecOn with
  | nil =>
    have none : ∀ desc ∈ ([] : List MemoryDescriptor), ∀ {claim : Prop}, claim := by
      intro desc member
      cases member
    exact ⟨iff_of_true rfl fun desc member => none desc member,
      fun _ => ⟨.inl rfl, le_refl _, fun desc member => none desc member⟩⟩
  | append_singleton front desc ih =>
    have frontPlaced : ∀ desc ∈ front, Placed desc :=
      fun other member => placed other (mem_append_left _ member)
    obtain ⟨goesOn, low⟩ := ih keeps.front frontPlaced
    have both : AllRestricted pages limit checkRange (front ++ [desc]) ↔
        AllRestricted pages limit checkRange front ∧
          ∀ top, topBelow pages limit desc = some top → isRestricted checkRange pages top = true := by
      unfold AllRestricted
      rw [forall_mem_append, forall_mem_singleton]
    rw [searchTop_append]
    cases found : (searchTop pages checkRange front limit).1 with
    | true =>
      have some : ¬AllRestricted pages limit checkRange (front ++ [desc]) := by
        intro all
        rw [goesOn.mpr (both.mp all).1] at found
        cases found
      simp only [if_true, found]
      exact ⟨iff_of_false (fun clash : true = false => by cases clash) some, fun all => absurd all some⟩
    | false =>
      have restricted := goesOn.mp found
      obtain ⟨origin, atMost, least⟩ := low restricted
      have same := keeps front desc [] rfl found
      simp only [Bool.false_eq_true, if_false, searchTop, same]
      cases offers : topBelow pages limit desc with
      | none =>
        have all : AllRestricted pages limit checkRange (front ++ [desc]) :=
          both.mpr ⟨restricted, fun top fits => by rw [offers] at fits; cases fits⟩
        refine ⟨iff_of_true rfl all, fun _ => ⟨origin.imp_right ?_, atMost, ?_⟩⟩
        · rintro ⟨other, member, fits⟩
          exact ⟨other, mem_append_left _ member, fits⟩
        · intro other member top fits
          rcases mem_append.mp member with before | last
          · exact least other before top fits
          · rw [mem_singleton.mp last, offers] at fits
            cases fits
      | some start =>
        dsimp only
        split
        · rename_i unusable
          have all : AllRestricted pages limit checkRange (front ++ [desc]) := by
            refine both.mpr ⟨restricted, fun top fits => ?_⟩
            rw [offers] at fits
            cases fits
            exact unusable
          rw [← same] at offers
          have here := placed desc (mem_append_right _ mem_cons_self)
          have lower := ((topBelow_eq_some here (lt_of_le_of_lt atMost bounded)).mp offers).2
          rw [highest] at lower
          rw [same] at offers
          refine ⟨iff_of_true rfl all, fun _ => ⟨.inr ⟨desc, ?_, offers⟩, by omega, ?_⟩⟩
          · exact mem_append_right _ mem_cons_self
          · intro other member top fits
            rcases mem_append.mp member with before | last
            · have above := least other before top fits
              omega
            · rw [mem_singleton.mp last, offers] at fits
              cases fits
              exact le_refl _
        · rename_i usable
          have some : ¬AllRestricted pages limit checkRange (front ++ [desc]) :=
            fun all => usable ((both.mp all).2 start offers)
          exact ⟨iff_of_false (fun clash : true = false => by cases clash) some, fun all => absurd all some⟩

end Search

section Allocation
variable {pages limit : Nat} {checkRange : Option (Nat → Nat → Bool)} {allocatePages : Nat → EfiStatus}
  {memoryMap down : List MemoryDescriptor}

/-- What the function is for: the highest range that may be used, of the last descriptor that has
one. The descriptors are considered in reverse order. -/
structure FromTop (memoryMap : List MemoryDescriptor) (checkRange : Option (Nat → Nat → Bool))
    (pages limit : Nat) (result : TopAllocation) : Prop where
  notFound : result.asked = false → ∀ desc ∈ memoryMap, Fits pages limit desc →
    isRestricted checkRange pages (highest pages limit desc) = true
  success : result.status = .success → result.memory % efiPageSize = 0 ∧
    result.memory + pages * efiPageSize ≤ limit ∧
    isRestricted checkRange pages result.memory = false ∧
    ∃ earlier desc later, memoryMap.reverse = earlier ++ desc :: later ∧
      AllRestricted pages limit checkRange earlier ∧ desc.type = efiConventionalMemory ∧
      desc.physicalStart ≤ result.memory ∧ result.memory + pages * efiPageSize ≤ ending desc
  keeps : KeepsLimit pages limit checkRange memoryMap.reverse

/-- A descriptor that is considered behind a range that may not be used ends below it, and the
range that is taken is aligned. -/
structure Undisturbed (memoryMap : List MemoryDescriptor) (allocatePages : Nat → EfiStatus)
    (checkRange : Option (Nat → Nat → Bool)) (pages limit : Nat) : Prop where
  order : ∀ earlier desc later, memoryMap.reverse = earlier ++ desc :: later →
    AllRestricted pages limit checkRange earlier → Fits pages limit desc →
    ∀ other ∈ earlier, Fits pages limit other →
      ending desc ≤ highest pages limit other ∨ highest pages limit other = limit
  aligned : ∀ earlier desc later, memoryMap.reverse = earlier ++ desc :: later →
    AllRestricted pages limit checkRange earlier → Fits pages limit desc →
    isRestricted checkRange pages (highest pages limit desc) = false →
    allocatePages (highest pages limit desc) = .success →
      ending desc ≤ limit ∨ limit % efiPageSize = 0

theorem keepsLimit_of_order (placed : ∀ desc ∈ down, Placed desc) (bounded : limit < u64)
    (order : ∀ earlier desc later, down = earlier ++ desc :: later →
      AllRestricted pages limit checkRange earlier → Fits pages limit desc →
      ∀ other ∈ earlier, Fits pages limit other →
        ending desc ≤ highest pages limit other ∨ highest pages limit other = limit) :
    KeepsLimit pages limit checkRange down := by
  intro earlier
  induction length : earlier.length using Nat.strong_induction_on generalizing earlier with
  | _ count ih =>
    intro desc later split missed
    have before : ∀ other ∈ earlier, Placed other := by
      intro other member
      exact placed other (by rw [split]; exact mem_append_left _ member)
    have here : Placed desc := placed desc (by rw [split]; simp)
    have keeps : KeepsLimit pages limit checkRange earlier := by
      rintro front other rear rfl
      have shorter : front.length < count := by
        rw [← length, length_append, length_cons]
        omega
      exact ih front.length shorter front rfl other (rear ++ desc :: later)
        (by rw [split, append_assoc, cons_append])
    obtain ⟨goesOn, low⟩ := keeps.walk before bounded
    have restricted := goesOn.mp missed
    obtain ⟨origin, atMost, -⟩ := low restricted
    rw [topBelow_lower here bounded atMost]
    intro offers
    obtain ⟨top, fits⟩ := Option.isSome_iff_exists.mp offers
    have fitsHere := ((topBelow_eq_some here bounded).mp fits).1
    rcases origin with same | ⟨other, member, offered⟩
    · exact .inr same
    · obtain ⟨fitsOther, start⟩ := (topBelow_eq_some (before other member) bounded).mp offered
      rw [start]
      exact order earlier desc later split restricted fitsHere other member fitsOther

theorem order_of_keepsLimit (placed : ∀ desc ∈ down, Placed desc) (bounded : limit < u64)
    (keeps : KeepsLimit pages limit checkRange down) (earlier later : List MemoryDescriptor)
    (desc : MemoryDescriptor) (split : down = earlier ++ desc :: later)
    (restricted : AllRestricted pages limit checkRange earlier) (fits : Fits pages limit desc)
    (other : MemoryDescriptor) (member : other ∈ earlier) (fitsOther : Fits pages limit other) :
    ending desc ≤ highest pages limit other ∨ highest pages limit other = limit := by
  subst split
  have before : ∀ other ∈ earlier, Placed other :=
    fun other member => placed other (mem_append_left _ member)
  have here : Placed desc := placed desc (by simp)
  obtain ⟨goesOn, low⟩ := keeps.front.walk before bounded
  obtain ⟨-, atMost, least⟩ := low restricted
  have same := keeps earlier desc later rfl (goesOn.mpr restricted)
  have offers := (topBelow_eq_some here bounded).mpr ⟨fits, rfl⟩
  have under := (topBelow_lower here bounded atMost).mp same (by rw [offers]; rfl)
  have above := least other member _
    ((topBelow_eq_some (before other member) bounded).mpr ⟨fitsOther, rfl⟩)
  have notOver : highest pages limit other ≤ limit := by
    rw [highest]
    omega
  omega

theorem highest_aligned {desc : MemoryDescriptor} (placed : Placed desc)
    (fits : Fits pages limit desc) :
    highest pages limit desc % efiPageSize = 0 ↔ ending desc ≤ limit ∨ limit % efiPageSize = 0 := by
  have aligned := placed.aligned
  have ends : ending desc = desc.physicalStart + desc.numberOfPages * 4096 := rfl
  have enough := fits.2.1
  have low := fits.2.2
  rw [highest, efiPageSize_val] at *
  omega

theorem highest_bounds {desc : MemoryDescriptor} (fits : Fits pages limit desc) :
    desc.physicalStart ≤ highest pages limit desc ∧
      highest pages limit desc + pages * efiPageSize ≤ ending desc ∧
      highest pages limit desc + pages * efiPageSize ≤ limit := by
  have low := fits.2.2
  have less := Nat.mul_le_mul_right efiPageSize fits.2.1
  rw [highest, ending]
  omega

/-- The search comes to the first descriptor in its order that offers a range that may be used. -/
theorem KeepsLimit.found (keeps : KeepsLimit pages limit checkRange down)
    (placed : ∀ desc ∈ down, Placed desc) (bounded : limit < u64) {top : Nat}
    (result : searchTop pages checkRange down limit = (true, top)) :
    ∃ earlier desc later, down = earlier ++ desc :: later ∧
      AllRestricted pages limit checkRange earlier ∧ Fits pages limit desc ∧
      top = highest pages limit desc ∧ isRestricted checkRange pages top = false := by
  obtain ⟨earlier, desc, later, rfl, missed, offers, free⟩ := searchTop_found result
  rw [keeps earlier desc later rfl missed] at offers
  have here : Placed desc := placed desc (by simp)
  obtain ⟨fits, start⟩ := (topBelow_eq_some here bounded).mp offers
  have before : ∀ other ∈ earlier, Placed other :=
    fun other member => placed other (mem_append_left _ member)
  exact ⟨earlier, desc, later, rfl, (keeps.front.walk before bounded).1.mp missed, fits, start, free⟩

/-- The pages come from the top below the limit exactly when no rejected range lowers it for
another descriptor, and the range taken is aligned. -/
theorem ocAllocatePagesFromTop_fromTop (placed : ∀ desc ∈ memoryMap, Placed desc)
    (bounded : limit < u64) :
    FromTop memoryMap checkRange pages limit
        (ocAllocatePagesFromTop (.ok memoryMap) allocatePages checkRange pages limit) ↔
      Undisturbed memoryMap allocatePages checkRange pages limit := by
  have downPlaced : ∀ desc ∈ memoryMap.reverse, Placed desc :=
    fun desc member => placed desc (mem_reverse.mp member)
  constructor
  · intro fromTop
    refine ⟨fun earlier desc later split restricted fits other member fitsOther =>
      order_of_keepsLimit downPlaced bounded fromTop.keeps earlier later desc split restricted fits
        other member fitsOther, ?_⟩
    intro earlier desc later split restricted fits free granted
    have here : Placed desc := downPlaced desc (by rw [split]; simp)
    have before : ∀ other ∈ earlier, Placed other := by
      intro other member
      exact downPlaced other (by rw [split]; exact mem_append_left _ member)
    -- The search ends at this descriptor, so its range is the one that is returned.
    have keeps := fromTop.keeps
    rw [split] at keeps
    have missed := (keeps.front.walk before bounded).1.mpr restricted
    have offers : topBelow pages (searchTop pages checkRange earlier limit).2 desc =
        some (highest pages limit desc) := by
      rw [keeps earlier desc later rfl missed]
      exact (topBelow_eq_some here bounded).mpr ⟨fits, rfl⟩
    have search : searchTop pages checkRange memoryMap.reverse limit =
        (true, highest pages limit desc) := by
      rw [split, searchTop_append, missed]
      simp only [Bool.false_eq_true, if_false, searchTop, offers, free]
    have success := fromTop.success
    simp only [ocAllocatePagesFromTop, search, granted, true_implies] at success
    exact (highest_aligned here fits).mp success.1
  · intro undisturbed
    have keeps := keepsLimit_of_order downPlaced bounded undisturbed.order
    rcases search : searchTop pages checkRange memoryMap.reverse limit with ⟨found, top⟩
    cases found with
    | false =>
      have missed : (searchTop pages checkRange memoryMap.reverse limit).1 = false := by rw [search]
      have restricted := (keeps.walk downPlaced bounded).1.mp missed
      have result : ocAllocatePagesFromTop (.ok memoryMap) allocatePages checkRange pages limit =
          ⟨.notFound, top, false⟩ := by simp only [ocAllocatePagesFromTop, search]
      rw [result]
      refine ⟨fun _ desc member fits => ?_, fun clash => ?_, keeps⟩
      · exact restricted desc (mem_reverse.mpr member) _
          ((topBelow_eq_some (placed desc member) bounded).mpr ⟨fits, rfl⟩)
      · cases clash
    | true =>
      obtain ⟨earlier, desc, later, split, restricted, fits, rfl, free⟩ :=
        keeps.found downPlaced bounded search
      have result : ocAllocatePagesFromTop (.ok memoryMap) allocatePages checkRange pages limit =
          ⟨allocatePages (highest pages limit desc), highest pages limit desc, true⟩ := by
        simp only [ocAllocatePagesFromTop, search]
      rw [result]
      refine ⟨fun clash => ?_, fun granted => ?_, keeps⟩
      · cases clash
      · have here : Placed desc := downPlaced desc (by rw [split]; simp)
        have whole := undisturbed.aligned earlier desc later split restricted fits free granted
        obtain ⟨low, inside, under⟩ := highest_bounds fits
        exact ⟨(highest_aligned here fits).mpr whole, under, free, earlier, desc, later, split,
          restricted, fits.1, low, inside⟩

/-- Two free blocks, of which the higher one comes first, and no range may start at the top of the
lower one. -/
def unsortedBlocks : List MemoryDescriptor := [⟨7, 0x100000, 16, 15⟩, ⟨7, 0x10000, 16, 15⟩]

theorem ocAllocatePagesFromTop_fromTop_sorted :
    FromTop [⟨7, 0x10000, 16, 15⟩, ⟨7, 0x100000, 16, 15⟩] (some fun top _ => top == 0x10F000) 1
        0x200000 (ocAllocatePagesFromTop (.ok [⟨7, 0x10000, 16, 15⟩, ⟨7, 0x100000, 16, 15⟩])
          (fun _ => .success) (some fun top _ => top == 0x10F000) 1 0x200000) ↔
      Undisturbed [⟨7, 0x10000, 16, 15⟩, ⟨7, 0x100000, 16, 15⟩] (fun _ => .success)
        (some fun top _ => top == 0x10F000) 1 0x200000 := by
  apply ocAllocatePagesFromTop_fromTop
  · simp only [mem_cons, not_mem_nil, or_false, forall_eq_or_imp, forall_eq]
    exact ⟨⟨by decide, by decide⟩, ⟨by decide, by decide⟩⟩
  · decide

/-- A rejected range at 0x1F000 hides the free block above it. -/
theorem ocAllocatePagesFromTop_lowered :
    ocAllocatePagesFromTop (.ok unsortedBlocks) (fun _ => .success)
        (some fun top _ => top == 0x1F000) 1 0x200000 = ⟨.notFound, 0x1F000, false⟩ ∧
      Fits 1 0x200000 ⟨7, 0x100000, 16, 15⟩ ∧ highest 1 0x200000 ⟨7, 0x100000, 16, 15⟩ = 0x10F000 := by
  decide

end Allocation

end OpenCore.AllocateFromTop
