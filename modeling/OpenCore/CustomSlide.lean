import Mathlib.Data.List.Range
import OpenCore.AttributesExpand
import OpenCore.IntervalCover
import OpenCore.MemoryMapShrink

/-!
`ShouldUseCustomSlideOffset`: for every slide of the kernel the memory map is walked to see
whether the area the kernel takes there is free memory. The slides found so are kept with
the state, and one of them is picked at random.
-/

namespace OpenCore.CustomSlide

open Base MemoryAttributes MemoryMapPages MemoryMapShrink AttributesExpand IntervalCover List

section Source

def slideGranularity : Nat := 0x200000
def totalSlideNum : Nat := 0x100
def slideErrataNum : Nat := 0x80
def slideErrataSkipRange : Nat := 0x10200000
def estimatedKernelSize : Nat := 200 * 0x100000
def kernelBasePaddr : Nat := 0x100000

def startAddr (hasSandyOrIvy : Bool) (slide : Nat) : Nat :=
  slide * slideGranularity + kernelBasePaddr +
    if slideErrataNum ≤ slide ∧ hasSandyOrIvy = true then slideErrataSkipRange else 0

def getSlideRangeForValue (estimatedKernelArea : Nat) (hasSandyOrIvy : Bool) (slide : Nat) :
    Nat × Nat :=
  (startAddr hasSandyOrIvy slide, (startAddr hasSandyOrIvy slide + estimatedKernelArea) % u64)

def ocCountRuntimePages (memoryMap : List MemoryDescriptor) : Nat :=
  ((memoryMap.filter fun desc => desc.type ≠ 0 ∧ desc.attributeFlags &&& efiMemoryRuntime ≠ 0).map
    (·.numberOfPages)).sum % u64

/-- What `AvailableSize` becomes by a free descriptor that overlaps the area. -/
def addAvailable (start stop : Nat) (desc : MemoryDescriptor) (availableSize : Nat) : Nat :=
  let whole := (availableSize + efiPagesToSize desc.numberOfPages) % u64
  let behind :=
    if desc.physicalStart < start then wrapSub u64 whole (start - desc.physicalStart) else whole
  if stop < nextAddress desc then wrapSub u64 behind (nextAddress desc - stop) else behind

/-- `Supported` so far and `AvailableSize` after the loop over the entries that are left. -/
def walkArea (start stop : Nat) : Nat → List MemoryDescriptor → Nat → Bool × Nat
  | entries + 1, desc :: rest, availableSize =>
    -- the index advances past an empty descriptor, the descriptor does not
    if desc.numberOfPages = 0 then walkArea start stop entries (desc :: rest) availableSize
    else if desc.physicalStart < stop ∧ start < nextAddress desc then
      if desc.type ≠ efiConventionalMemory then (false, availableSize)
      else walkArea start stop entries rest (addAvailable start stop desc availableSize)
    else walkArea start stop entries rest availableSize
  | _, _, availableSize => (true, availableSize)

/-- The part of `SLIDE_SUPPORT_STATE` that the analysis reads and writes. The slides are the first
`ValidSlideCount` ones of the array. -/
structure SlideSupport where
  hasMemoryMapAnalysis : Bool
  hasSandyOrIvy : Bool
  provideMaxSlide : Nat
  validSlides : List Nat
  estimatedKernelArea : Nat
  deriving DecidableEq

structure Analysis where
  validSlides : List Nat
  maxAvailableSize : Nat
  fallbackSlide : Nat

def Analysis.offer (analysis : Analysis) (slide availableSize : Nat) : Analysis :=
  if analysis.maxAvailableSize < availableSize then
    { analysis with maxAvailableSize := availableSize, fallbackSlide := slide % 0x100 }
  else analysis

def exceeds (provideMaxSlide slide : Nat) : Bool := 0 < provideMaxSlide && provideMaxSlide < slide

def isSupported (estimatedKernelArea : Nat) (hasSandyOrIvy : Bool)
    (memoryMap : List MemoryDescriptor) (slide : Nat) : Bool × Nat :=
  let (start, stop) := getSlideRangeForValue estimatedKernelArea hasSandyOrIvy (slide % 0x100)
  let (supported, availableSize) := walkArea start stop memoryMap.length memoryMap 0
  (supported && (start + availableSize) % u64 == stop, availableSize)

def analyseSlides (support : SlideSupport) (memoryMap : List MemoryDescriptor) :
    List Nat → Analysis → Analysis
  | [], analysis => analysis
  | slide :: rest, analysis =>
    let (supported, availableSize) :=
      isSupported support.estimatedKernelArea support.hasSandyOrIvy memoryMap slide
    let offered := analysis.offer slide availableSize
    if exceeds support.provideMaxSlide slide then offered
    else if supported then
      analyseSlides support memoryMap rest
        { offered with validSlides := offered.validSlides ++ [slide % 0x100] }
    else analyseSlides support memoryMap rest offered

def shouldUseCustomSlideOffsetDecision (support : SlideSupport) (fallbackSlide : Nat) :
    Bool × SlideSupport :=
  if support.validSlides.length = totalSlideNum then (false, support)
  else if support.validSlides.length = 0 then
    (true, { support with validSlides := support.validSlides ++ [fallbackSlide] })
  else (true, support)

def SlideSupport.reset (support : SlideSupport) (hasSandyOrIvy : Bool)
    (memoryMap : List MemoryDescriptor) : SlideSupport :=
  { support with
    hasSandyOrIvy := hasSandyOrIvy
    validSlides := []
    estimatedKernelArea :=
      (efiPagesToSize (ocCountRuntimePages memoryMap) + estimatedKernelSize) % u64 }

/-- The memory map is what `OcGetCurrentMemoryMapAlloc` returns, or its error. -/
def shouldUseCustomSlideOffset (getMemoryMap : Except EfiStatus (List MemoryDescriptor))
    (filterMap : Option (List MemoryDescriptor → List MemoryDescriptor)) (hasSandyOrIvy : Bool)
    (support : SlideSupport) : Bool × SlideSupport :=
  if support.hasMemoryMapAnalysis then
    (0 < support.validSlides.length && support.validSlides.length < totalSlideNum, support)
  else
    match getMemoryMap with
    | .error _ => (false, support)
    | .ok unfiltered =>
      let memoryMap := (filterMap.getD id) unfiltered
      let support := support.reset hasSandyOrIvy memoryMap
      let analysis := analyseSlides support memoryMap (List.range totalSlideNum) ⟨[], 0, 0⟩
      shouldUseCustomSlideOffsetDecision
        { support with hasMemoryMapAnalysis := true, validSlides := analysis.validSlides }
        analysis.fallbackSlide

/-- The loop over the random numbers, which goes on until a slide is not 0. -/
def drawSlide (validSlides : List Nat) : List Nat → Option Nat
  | [] => none
  | number :: rest =>
    let slide := validSlides.getD (number % validSlides.length) 0
    if slide = 0 then drawSlide validSlides rest else some slide

def generateSlideValue (support : SlideSupport) (numbers : List Nat) : Option Nat :=
  if support.validSlides.length = 1 then support.validSlides[0]?
  else drawSlide support.validSlides numbers

end Source

section Areas
variable {memoryMap : List MemoryDescriptor} {desc : MemoryDescriptor}
  {start stop availableSize slide : Nat} {support : SlideSupport}

structure Laid (memoryMap : List MemoryDescriptor) : Prop where
  positive : ∀ desc ∈ memoryMap, 0 < desc.numberOfPages
  bounded : ∀ desc ∈ memoryMap, ending desc < u64
  apart : memoryMap.Pairwise (Apart (·.physicalStart) ending)

theorem Laid.rest (laid : Laid (desc :: memoryMap)) : Laid memoryMap where
  positive other member := laid.positive other (mem_cons_of_mem _ member)
  bounded other member := laid.bounded other (mem_cons_of_mem _ member)
  apart := (pairwise_cons.mp laid.apart).2

theorem Laid.holdsPages (laid : Laid memoryMap) (member : desc ∈ memoryMap) :
    desc.physicalStart < ending desc := by
  have positive := laid.positive desc member
  rw [ending, efiPageSize_val]
  omega

def FreeArea (memoryMap : List MemoryDescriptor) (low high : Nat) : Prop :=
  ∀ address, low ≤ address → address < high → ∃ desc ∈ memoryMap,
    desc.type = efiConventionalMemory ∧ desc.physicalStart ≤ address ∧ address < ending desc

def Overlaps (start stop : Nat) (desc : MemoryDescriptor) : Prop :=
  desc.physicalStart < stop ∧ start < ending desc

def part (start stop : Nat) (desc : MemoryDescriptor) : Nat :=
  shared (·.physicalStart) ending start stop desc

theorem part_eq : part start stop desc = min (ending desc) stop - max desc.physicalStart start := rfl

theorem nextAddress_of_positive (positive : 0 < desc.numberOfPages) (bounded : ending desc < u64) :
    nextAddress desc = ending desc := by
  have ends : ending desc = desc.physicalStart + desc.numberOfPages * 4096 := rfl
  have size : efiPagesToSize desc.numberOfPages = desc.numberOfPages * 4096 :=
    Nat.mod_eq_of_lt (by rw [efiPageSize_val]; omega)
  have last : lastDescriptorAddr desc = desc.physicalStart + (desc.numberOfPages * 4096 - 1) := by
    rw [lastDescriptorAddr, size, wrapSub_of_le (by omega) (by omega), Nat.mod_eq_of_lt (by omega)]
  rw [nextAddress, last, Nat.mod_eq_of_lt (by omega)]
  omega

theorem wrapSub_mod {modulus left right : Nat} (positive : 0 < modulus) (ordered : right ≤ left) :
    wrapSub modulus (left % modulus) right = (left - right) % modulus := by
  have below := Nat.mod_lt right positive
  have split := Nat.div_add_mod right modulus
  have sum : left + (modulus - right % modulus) = left - right + modulus * (right / modulus + 1) := by
    rw [Nat.mul_add, Nat.mul_one]
    omega
  rw [wrapSub, Nat.mod_add_mod, sum, Nat.add_mul_mod_self_left]

theorem part_of_apart (apart : ¬ Overlaps start stop desc) : part start stop desc = 0 := by
  rw [Overlaps, not_and_or] at apart
  rw [part_eq]
  omega

theorem addAvailable_eq (ordered : start ≤ stop) (positive : 0 < desc.numberOfPages)
    (bounded : ending desc < u64) (overlaps : Overlaps start stop desc)
    (room : availableSize + part start stop desc < u64) :
    addAvailable start stop desc availableSize = availableSize + part start stop desc := by
  have ends : ending desc = desc.physicalStart + desc.numberOfPages * 4096 := rfl
  have size : efiPagesToSize desc.numberOfPages = desc.numberOfPages * 4096 :=
    Nat.mod_eq_of_lt (by rw [efiPageSize_val]; omega)
  obtain ⟨before, behind⟩ := overlaps
  rw [part_eq] at room ⊢
  have front : (if desc.physicalStart < start then
      wrapSub u64 ((availableSize + desc.numberOfPages * 4096) % u64) (start - desc.physicalStart)
      else (availableSize + desc.numberOfPages * 4096) % u64) =
      (availableSize + desc.numberOfPages * 4096 - (start - desc.physicalStart)) % u64 := by
    split
    · exact wrapSub_mod (by decide) (by omega)
    · rename_i within
      rw [Nat.sub_eq_zero_of_le (Nat.le_of_not_lt within), Nat.sub_zero]
  rw [addAvailable, nextAddress_of_positive positive bounded, size, front]
  split
  · rw [wrapSub_mod (by decide) (by omega), Nat.mod_eq_of_lt (by omega)]
    omega
  · rw [Nat.mod_eq_of_lt (by omega)]
    omega

theorem walkArea_free (ordered : start ≤ stop) (laid : Laid memoryMap)
    (free : ∀ desc ∈ memoryMap, Overlaps start stop desc → desc.type = efiConventionalMemory)
    (room : availableSize + (memoryMap.map (part start stop)).sum < u64) :
    walkArea start stop memoryMap.length memoryMap availableSize =
      (true, availableSize + (memoryMap.map (part start stop)).sum) := by
  induction memoryMap generalizing availableSize with
  | nil => rfl
  | cons desc rest ih =>
    have positive := laid.positive desc mem_cons_self
    have bounded := laid.bounded desc mem_cons_self
    have later := fun other member => free other (mem_cons_of_mem _ member)
    rw [map_cons, sum_cons, ← Nat.add_assoc] at room ⊢
    rw [length_cons, walkArea, if_neg (Nat.pos_iff_ne_zero.mp positive),
      nextAddress_of_positive positive bounded]
    split
    · rename_i overlaps
      rw [if_neg (not_not_intro (free desc mem_cons_self overlaps)),
        addAvailable_eq ordered positive bounded overlaps (by omega)]
      exact ih laid.rest later room
    · rename_i apart
      rw [part_of_apart apart] at room ⊢
      exact ih laid.rest later room

theorem walkArea_taken (laid : Laid memoryMap)
    (taken : ∃ desc ∈ memoryMap, Overlaps start stop desc ∧ desc.type ≠ efiConventionalMemory) :
    (walkArea start stop memoryMap.length memoryMap availableSize).1 = false := by
  induction memoryMap generalizing availableSize with
  | nil =>
    obtain ⟨_, member, _⟩ := taken
    cases member
  | cons desc rest ih =>
    obtain ⟨other, member, overlaps, occupied⟩ := taken
    have positive := laid.positive desc mem_cons_self
    rw [length_cons, walkArea, if_neg (Nat.pos_iff_ne_zero.mp positive),
      nextAddress_of_positive positive (laid.bounded desc mem_cons_self)]
    rcases mem_cons.mp member with rfl | later
    · have conditions : other.physicalStart < stop ∧ start < ending other := overlaps
      rw [if_pos conditions, if_pos occupied]
    · split
      · split
        · rfl
        · exact ih laid.rest ⟨other, later, overlaps, occupied⟩
      · exact ih laid.rest ⟨other, later, overlaps, occupied⟩

/-- The area is free if free descriptors cover it. Anything else that overlaps it would share an
address with one of them. -/
theorem freeArea_iff (laid : Laid memoryMap) (ordered : start < stop) :
    FreeArea memoryMap start stop ↔
      (∀ desc ∈ memoryMap, Overlaps start stop desc → desc.type = efiConventionalMemory) ∧
        ∀ address, start ≤ address → address < stop →
          Covers (·.physicalStart) ending memoryMap address := by
  constructor
  · intro free
    refine ⟨fun desc member overlaps => ?_, fun address above below => ?_⟩
    · obtain ⟨other, listed, kind, here⟩ := free (max desc.physicalStart start)
        (Nat.le_max_right _ _) (Nat.max_lt.mpr ⟨overlaps.1, ordered⟩)
      have there : Holds (·.physicalStart) ending desc (max desc.physicalStart start) :=
        ⟨Nat.le_max_left _ _, Nat.max_lt.mpr ⟨laid.holdsPages member, overlaps.2⟩⟩
      rw [← holds_unique laid.apart listed member here there]
      exact kind
    · obtain ⟨desc, member, _, here⟩ := free address above below
      exact ⟨desc, member, here⟩
  · intro ⟨free, covered⟩ address above below
    obtain ⟨desc, member, here⟩ := covered address above below
    exact ⟨desc, member, free desc member ⟨here.1.trans_lt below, above.trans_lt here.2⟩, here⟩

theorem isSupported_iff {hasSandyOrIvy : Bool} {estimatedKernelArea : Nat} (laid : Laid memoryMap)
    (small : slide < totalSlideNum) (positive : 0 < estimatedKernelArea)
    (fits : startAddr hasSandyOrIvy slide + estimatedKernelArea < u64) :
    (isSupported estimatedKernelArea hasSandyOrIvy memoryMap slide).1 = true ↔
      FreeArea memoryMap (startAddr hasSandyOrIvy slide)
        (startAddr hasSandyOrIvy slide + estimatedKernelArea) := by
  have slot : slide % 0x100 = slide := Nat.mod_eq_of_lt small
  have stop := Nat.mod_eq_of_lt fits
  rw [freeArea_iff laid (by omega), ← sum_shared_eq_iff laid.apart, isSupported, slot,
    getSlideRangeForValue, stop, Bool.and_eq_true, beq_iff_eq]
  generalize startAddr hasSandyOrIvy slide = start at fits ⊢
  by_cases free : ∀ desc ∈ memoryMap,
    Overlaps start (start + estimatedKernelArea) desc → desc.type = efiConventionalMemory
  · have most : (memoryMap.map (part start (start + estimatedKernelArea))).sum ≤ _ :=
      sum_shared_le laid.apart
    rw [walkArea_free (Nat.le_add_right _ _) laid free (by omega), Nat.zero_add,
      Nat.mod_eq_of_lt (by omega)]
    constructor
    · intro ⟨_, filled⟩
      exact ⟨free, Nat.eq_sub_of_add_eq' filled⟩
    · intro ⟨_, filled⟩
      exact ⟨rfl, filled ▸ Nat.add_sub_cancel' (Nat.le_add_right _ _)⟩
  · have taken : ∃ desc ∈ memoryMap, Overlaps start (start + estimatedKernelArea) desc ∧
        desc.type ≠ efiConventionalMemory := by
      push Not at free
      exact free
    rw [walkArea_taken laid taken]
    exact ⟨fun ⟨clash, _⟩ => (Bool.false_ne_true clash).elim,
      fun ⟨others, _⟩ => absurd others free⟩

end Areas

section Slides
variable {memoryMap : List MemoryDescriptor} {support : SlideSupport} {analysis : Analysis}
  {slides : List Nat} {slide : Nat}

def keeps (support : SlideSupport) (memoryMap : List MemoryDescriptor) (slide : Nat) : Bool :=
  !exceeds support.provideMaxSlide slide &&
    (isSupported support.estimatedKernelArea support.hasSandyOrIvy memoryMap slide).1

theorem exceeds_of_le {provideMaxSlide other : Nat} (large : exceeds provideMaxSlide slide = true)
    (order : slide ≤ other) : exceeds provideMaxSlide other = true := by
  unfold exceeds at large ⊢
  rw [Bool.and_eq_true, decide_eq_true_eq, decide_eq_true_eq] at large ⊢
  exact ⟨large.1, large.2.trans_le order⟩

theorem offer_validSlides {availableSize : Nat} :
    (analysis.offer slide availableSize).validSlides = analysis.validSlides := by
  unfold Analysis.offer
  split <;> rfl

/-- The loop ends at a slide that is too large, but all that follow are too large as well. -/
theorem analyseSlides_validSlides (sorted : slides.Pairwise (· < ·))
    (small : ∀ slide ∈ slides, slide < totalSlideNum) :
    (analyseSlides support memoryMap slides analysis).validSlides =
      analysis.validSlides ++ slides.filter (keeps support memoryMap) := by
  induction slides generalizing analysis with
  | nil => exact (append_nil _).symm
  | cons slide rest ih =>
    obtain ⟨above, later⟩ := pairwise_cons.mp sorted
    have slot : slide % 0x100 = slide := Nat.mod_eq_of_lt (small slide mem_cons_self)
    have least : ∀ other ∈ slide :: rest, slide ≤ other := by
      intro other member
      rcases mem_cons.mp member with rfl | behind
      · exact le_refl _
      · exact (above other behind).le
    have behind : ∀ other ∈ rest, other < totalSlideNum :=
      fun other member => small other (mem_cons_of_mem _ member)
    simp only [analyseSlides]
    split
    · rename_i large
      have none : (slide :: rest).filter (keeps support memoryMap) = [] := by
        refine filter_eq_nil_iff.mpr fun other member => ?_
        rw [keeps, exceeds_of_le large (least other member)]
        exact Bool.false_ne_true
      rw [none, append_nil, offer_validSlides]
    · rename_i within
      rw [Bool.not_eq_true] at within
      split
      · rename_i supported
        have kept : keeps support memoryMap slide = true := by
          rw [keeps, within, supported]
          rfl
        rw [ih later behind, filter_cons_of_pos kept, offer_validSlides, slot, append_assoc]
        rfl
      · rename_i unsupported
        have dropped : ¬ keeps support memoryMap slide = true := by
          rw [keeps, within, Bool.not_false, Bool.true_and]
          exact unsupported
        rw [ih later behind, filter_cons_of_neg dropped, offer_validSlides]

theorem offer_fallbackSlide {availableSize : Nat} (small : analysis.fallbackSlide < totalSlideNum) :
    (analysis.offer slide availableSize).fallbackSlide < totalSlideNum := by
  unfold Analysis.offer
  split
  · exact Nat.mod_lt _ (by decide)
  · exact small

theorem analyseSlides_range :
    (analyseSlides support memoryMap (List.range totalSlideNum) ⟨[], 0, 0⟩).validSlides =
      (List.range totalSlideNum).filter (keeps support memoryMap) :=
  analyseSlides_validSlides pairwise_lt_range fun _ member => mem_range.mp member

theorem analyseSlides_most (most : ∀ slide ∈ slides, (isSupported support.estimatedKernelArea
      support.hasSandyOrIvy memoryMap slide).2 ≤ analysis.maxAvailableSize) :
    (analyseSlides support memoryMap slides analysis).fallbackSlide = analysis.fallbackSlide := by
  induction slides generalizing analysis with
  | nil => rfl
  | cons slide rest ih =>
    have kept : analysis.offer slide (isSupported support.estimatedKernelArea
        support.hasSandyOrIvy memoryMap slide).2 = analysis :=
      if_neg (Nat.not_lt_of_le (most slide mem_cons_self))
    have later : ∀ other ∈ rest, (isSupported support.estimatedKernelArea
        support.hasSandyOrIvy memoryMap other).2 ≤ analysis.maxAvailableSize :=
      fun other member => most other (mem_cons_of_mem _ member)
    simp only [analyseSlides, kept]
    split
    · rfl
    · split
      · exact ih later
      · exact ih later

theorem analyseSlides_first {first : Nat} {rest : List Nat}
    (initial : analysis.fallbackSlide = first % 0x100) (most : ∀ slide ∈ rest,
      (isSupported support.estimatedKernelArea support.hasSandyOrIvy memoryMap slide).2 ≤
        (isSupported support.estimatedKernelArea support.hasSandyOrIvy memoryMap first).2) :
    (analyseSlides support memoryMap (first :: rest) analysis).fallbackSlide = first % 0x100 := by
  simp only [analyseSlides]
  generalize isSupported support.estimatedKernelArea support.hasSandyOrIvy memoryMap first = found at most ⊢
  have fallback : (analysis.offer first found.2).fallbackSlide = first % 0x100 := by
    unfold Analysis.offer
    split
    · rfl
    · exact initial
  have size : found.2 ≤ (analysis.offer first found.2).maxAvailableSize := by
    unfold Analysis.offer
    split
    · exact le_refl _
    · rename_i less
      exact Nat.le_of_not_lt less
  split
  · exact fallback
  · split
    · refine Eq.trans (analyseSlides_most ?_) fallback
      exact fun slide member => (most slide member).trans size
    · refine Eq.trans (analyseSlides_most ?_) fallback
      exact fun slide member => (most slide member).trans size

theorem analyseSlides_fallbackSlide (small : analysis.fallbackSlide < totalSlideNum) :
    (analyseSlides support memoryMap slides analysis).fallbackSlide < totalSlideNum := by
  induction slides generalizing analysis with
  | nil => exact small
  | cons slide rest ih =>
    simp only [analyseSlides]
    split
    · exact offer_fallbackSlide small
    · split
      · exact ih (offer_fallbackSlide small)
      · exact ih (offer_fallbackSlide small)

end Slides

section Draws
variable {validSlides numbers : List Nat} {slide : Nat} {support : SlideSupport}

theorem drawSlide_mem (positive : 0 < validSlides.length)
    (drawn : drawSlide validSlides numbers = some slide) : slide ∈ validSlides := by
  induction numbers with
  | nil => cases drawn
  | cons number rest ih =>
    have inside := Nat.mod_lt number positive
    rw [drawSlide, ← getElem_eq_getD (h := inside)] at drawn
    split at drawn
    · exact ih drawn
    · cases drawn
      exact getElem_mem inside

theorem drawSlide_isSome
    (picked : ∃ number ∈ numbers, validSlides.getD (number % validSlides.length) 0 ≠ 0) :
    (drawSlide validSlides numbers).isSome = true := by
  induction numbers with
  | nil =>
    obtain ⟨_, member, _⟩ := picked
    cases member
  | cons number rest ih =>
    obtain ⟨other, member, nonzero⟩ := picked
    simp only [drawSlide]
    split
    · rename_i zero
      rcases mem_cons.mp member with rfl | later
      · exact absurd zero nonzero
      · exact ih ⟨other, later, nonzero⟩
    · rfl

structure Draws (support : SlideSupport) : Prop where
  member : ∀ numbers slide, generateSlideValue support numbers = some slide →
    slide ∈ support.validSlides
  returns : ∀ numbers, (∀ index < support.validSlides.length,
      ∃ number ∈ numbers, number % support.validSlides.length = index) →
    (generateSlideValue support numbers).isSome = true

theorem draws_of_ascending (ascending : support.validSlides.Pairwise (· < ·))
    (positive : 0 < support.validSlides.length) : Draws support where
  member numbers slide generated := by
    unfold generateSlideValue at generated
    split at generated
    · exact mem_of_getElem? generated
    · exact drawSlide_mem positive generated
  returns numbers drawn := by
    unfold generateSlideValue
    split
    · rw [getElem?_eq_getElem positive]
      rfl
    · have second : 1 < support.validSlides.length := by omega
      obtain ⟨number, member, index⟩ := drawn 1 second
      have larger := pairwise_iff_getElem.mp ascending 0 1 positive second Nat.one_pos
      refine drawSlide_isSome ⟨number, member, ?_⟩
      rw [index, ← getElem_eq_getD (h := second)]
      exact Nat.pos_iff_ne_zero.mp (Nat.zero_lt_of_lt larger)

end Draws

section Decision
variable {memoryMap unfiltered : List MemoryDescriptor} {support : SlideSupport}
  {filterMap : Option (List MemoryDescriptor → List MemoryDescriptor)} {hasSandyOrIvy : Bool}
variable {fallbackSlide : Nat}

/-- The whole kernel area at the slide is free memory, and the slide is not larger than asked for. -/
structure Usable (support : SlideSupport) (memoryMap : List MemoryDescriptor) (slide : Nat) :
    Prop where
  small : slide < totalSlideNum
  free : FreeArea memoryMap (startAddr support.hasSandyOrIvy slide)
    (startAddr support.hasSandyOrIvy slide + support.estimatedKernelArea)
  allowed : 0 < support.provideMaxSlide → slide ≤ support.provideMaxSlide

def kernelArea (memoryMap : List MemoryDescriptor) : Nat :=
  efiPagesToSize (ocCountRuntimePages memoryMap) + estimatedKernelSize

structure Decides (memoryMap : List MemoryDescriptor) (hasSandyOrIvy : Bool) (before : SlideSupport)
    (answer : Bool) (after : SlideSupport) : Prop where
  parameters : after.estimatedKernelArea = kernelArea memoryMap ∧
    after.hasSandyOrIvy = hasSandyOrIvy ∧ after.provideMaxSlide = before.provideMaxSlide
  ascending : after.validSlides.Pairwise (· < ·)
  valid : (∃ slide, Usable after memoryMap slide) →
    ∀ slide, slide ∈ after.validSlides ↔ Usable after memoryMap slide
  fallback : (∀ slide, ¬ Usable after memoryMap slide) →
    ∃ slide < totalSlideNum, after.validSlides = [slide]
  answered : answer = false ↔ ∀ slide < totalSlideNum, Usable after memoryMap slide
  draws : Draws after
  cached : ∀ getMemoryMap filterMap cpu,
    shouldUseCustomSlideOffset getMemoryMap filterMap cpu after = (answer, after)

theorem startAddr_le {slide : Nat} (small : slide < totalSlideNum) :
    startAddr hasSandyOrIvy slide ≤ startAddr hasSandyOrIvy 0xFF := by
  have last : slide ≤ 0xFF := Nat.le_of_lt_succ small
  have steps : slide * slideGranularity ≤ 0xFF * slideGranularity := Nat.mul_le_mul_right _ last
  unfold startAddr
  by_cases skips : slideErrataNum ≤ slide ∧ hasSandyOrIvy = true
  · rw [if_pos skips, if_pos ⟨skips.1.trans last, skips.2⟩]
    exact Nat.add_le_add_right (Nat.add_le_add_right steps _) _
  · rw [if_neg skips, Nat.add_zero]
    exact (Nat.add_le_add_right steps _).trans (Nat.le_add_right _ _)

theorem exceeds_eq_false {provideMaxSlide slide : Nat} :
    (!exceeds provideMaxSlide slide) = true ↔ (0 < provideMaxSlide → slide ≤ provideMaxSlide) := by
  rw [exceeds, Bool.not_eq_true', Bool.and_eq_false_imp, decide_eq_true_eq, decide_eq_false_iff_not,
    not_lt]

theorem keeps_iff {slide : Nat} (laid : Laid memoryMap)
    (area : support.estimatedKernelArea = kernelArea memoryMap)
    (fits : startAddr support.hasSandyOrIvy 0xFF + kernelArea memoryMap < u64) :
    slide ∈ (List.range totalSlideNum).filter (keeps support memoryMap) ↔
      Usable support memoryMap slide := by
  rw [mem_filter, mem_range, keeps, Bool.and_eq_true, exceeds_eq_false]
  have positive : 0 < support.estimatedKernelArea := by
    rw [area]
    exact lt_of_lt_of_le (by decide) (Nat.le_add_left estimatedKernelSize _)
  have supported := fun small : slide < totalSlideNum => isSupported_iff laid small positive
    (lt_of_le_of_lt (Nat.add_le_add_right (startAddr_le small) _) (area ▸ fits))
  constructor
  · intro ⟨small, allowed, kept⟩
    exact ⟨small, (supported small).mp kept, allowed⟩
  · intro usable
    exact ⟨usable.small, usable.allowed, (supported usable.small).mpr usable.free⟩

theorem usable_congr {other : SlideSupport} {slide : Nat}
    (area : other.estimatedKernelArea = support.estimatedKernelArea)
    (cpu : other.hasSandyOrIvy = support.hasSandyOrIvy)
    (limit : other.provideMaxSlide = support.provideMaxSlide) :
    Usable other memoryMap slide ↔ Usable support memoryMap slide := by
  constructor
  · intro usable
    exact ⟨usable.small, by rw [← area, ← cpu]; exact usable.free, limit ▸ usable.allowed⟩
  · intro usable
    exact ⟨usable.small, by rw [area, cpu]; exact usable.free, limit.symm ▸ usable.allowed⟩

theorem length_filter_range {count : Nat} {keep : Nat → Bool} :
    ((List.range count).filter keep).length = count ↔ ∀ slide < count, keep slide = true := by
  have every := length_filter_eq_length_iff (p := keep) (l := List.range count)
  rw [length_range] at every
  rw [every]
  exact forall_congr' fun slide => by rw [mem_range]

theorem answers_cached (analysed : support.hasMemoryMapAnalysis = true)
    {getMemoryMap : Except EfiStatus (List MemoryDescriptor)} :
    shouldUseCustomSlideOffset getMemoryMap filterMap hasSandyOrIvy support =
      (0 < support.validSlides.length && support.validSlides.length < totalSlideNum, support) :=
  if_pos analysed

theorem decision_decides {before after : SlideSupport}
    (analysed : after.hasMemoryMapAnalysis = true)
    (parameters : after.estimatedKernelArea = kernelArea memoryMap ∧
      after.hasSandyOrIvy = hasSandyOrIvy ∧ after.provideMaxSlide = before.provideMaxSlide)
    (kept : after.validSlides = (List.range totalSlideNum).filter (keeps support memoryMap))
    (usable : ∀ slide, slide ∈ after.validSlides ↔ Usable after memoryMap slide)
    (small : fallbackSlide < totalSlideNum) :
    Decides memoryMap hasSandyOrIvy before (shouldUseCustomSlideOffsetDecision after fallbackSlide).1
      (shouldUseCustomSlideOffsetDecision after fallbackSlide).2 := by
  have ascending : after.validSlides.Pairwise (· < ·) := kept ▸ pairwise_lt_range.filter _
  have most : after.validSlides.length ≤ totalSlideNum := by
    rw [kept]
    exact (length_filter_le _ _).trans_eq length_range
  have all : after.validSlides.length = totalSlideNum ↔
      ∀ slide < totalSlideNum, Usable after memoryMap slide := by
    rw [kept, length_filter_range]
    refine forall₂_congr fun slide small => ?_
    rw [← usable slide, kept, mem_filter, mem_range]
    exact ⟨fun keep => ⟨small, keep⟩, And.right⟩
  unfold shouldUseCustomSlideOffsetDecision
  split
  · rename_i full
    have every := all.mp full
    exact {
      parameters, ascending
      valid := fun _ => usable
      fallback := fun none => absurd (every 0 (by decide)) (none 0)
      answered := ⟨fun _ => every, fun _ => rfl⟩
      draws := draws_of_ascending ascending (full ▸ by decide)
      cached := by
        intro getMemoryMap filterMap cpu
        rw [answers_cached analysed, full]
        rfl }
  · rename_i short
    split
    · rename_i empty
      have nil := length_eq_zero_iff.mp empty
      have none : ∀ slide, ¬ Usable after memoryMap slide := by
        intro slide found
        have member := (usable slide).mpr found
        rw [nil] at member
        cases member
      have single : after.validSlides ++ [fallbackSlide] = [fallbackSlide] := by
        rw [nil]
        rfl
      have same : ∀ slide, Usable { after with validSlides := [fallbackSlide] } memoryMap slide ↔
          Usable after memoryMap slide := fun _ => usable_congr rfl rfl rfl
      rw [single]
      exact {
        parameters
        ascending := pairwise_singleton _ _
        valid := fun ⟨slide, found⟩ => absurd ((same slide).mp found) (none slide)
        fallback := fun _ => ⟨fallbackSlide, small, rfl⟩
        answered := by
          constructor
          · intro clash
            cases clash
          · exact fun every => absurd ((same 0).mp (every 0 (by decide))) (none 0)
        draws := draws_of_ascending (pairwise_singleton _ _) Nat.one_pos
        cached := fun _ _ _ => answers_cached (by exact analysed) }
    · rename_i some
      have positive := Nat.pos_of_ne_zero some
      have below := lt_of_le_of_ne most short
      exact {
        parameters, ascending
        valid := fun _ => usable
        fallback := by
          intro none
          have first := (usable _).mp (getElem_mem positive)
          exact absurd first (none _)
        answered := by
          constructor
          · intro clash
            cases clash
          · exact fun every => absurd (all.mpr every) short
        draws := draws_of_ascending ascending positive
        cached := by
          intro getMemoryMap filterMap cpu
          rw [answers_cached analysed, decide_eq_true positive, decide_eq_true below]
          rfl }

/-- The usable slides are kept, in ascending order, or one that is not usable if there are none;
all of them are only if the answer is that no slide has to be chosen. -/
theorem shouldUseCustomSlideOffset_decides (fresh : support.hasMemoryMapAnalysis = false)
    (laid : Laid (filterMap.getD id unfiltered))
    (fits : startAddr hasSandyOrIvy 0xFF + kernelArea (filterMap.getD id unfiltered) < u64) :
    Decides (filterMap.getD id unfiltered) hasSandyOrIvy support
      (shouldUseCustomSlideOffset (.ok unfiltered) filterMap hasSandyOrIvy support).1
      (shouldUseCustomSlideOffset (.ok unfiltered) filterMap hasSandyOrIvy support).2 := by
  rw [shouldUseCustomSlideOffset, if_neg (fresh ▸ Bool.false_ne_true)]
  generalize filterMap.getD id unfiltered = memoryMap at laid fits ⊢
  have area : (support.reset hasSandyOrIvy memoryMap).estimatedKernelArea = kernelArea memoryMap :=
    Nat.mod_eq_of_lt ((Nat.le_add_left _ _).trans_lt fits)
  refine decision_decides rfl ⟨area, rfl, rfl⟩ analyseSlides_range (fun slide => ?_)
    (analyseSlides_fallbackSlide (by decide))
  rw [analyseSlides_range]
  refine (keeps_iff laid area fits).trans (Iff.symm ?_)
  exact usable_congr rfl rfl rfl

theorem decision_validSlides :
    (shouldUseCustomSlideOffsetDecision support fallbackSlide).2.validSlides =
      if support.validSlides = [] then [fallbackSlide] else support.validSlides := by
  unfold shouldUseCustomSlideOffsetDecision
  split
  · rename_i full
    refine (if_neg fun empty => ?_).symm
    rw [empty] at full
    cases full
  · split
    · rename_i none
      have empty := length_eq_zero_iff.mp none
      rw [if_pos empty, empty]
      rfl
    · rename_i some
      exact (if_neg fun empty => some (length_eq_zero_iff.mpr empty)).symm

/-- What is in `ValidSlides` after an analysis. -/
theorem shouldUseCustomSlideOffset_validSlides (fresh : support.hasMemoryMapAnalysis = false) :
    (shouldUseCustomSlideOffset (.ok memoryMap) none hasSandyOrIvy support).2.validSlides =
      if (List.range totalSlideNum).filter (keeps (support.reset hasSandyOrIvy memoryMap) memoryMap) = []
      then [(analyseSlides (support.reset hasSandyOrIvy memoryMap) memoryMap
        (List.range totalSlideNum) ⟨[], 0, 0⟩).fallbackSlide]
      else (List.range totalSlideNum).filter (keeps (support.reset hasSandyOrIvy memoryMap) memoryMap) := by
  rw [shouldUseCustomSlideOffset, if_neg (fresh ▸ Bool.false_ne_true)]
  refine decision_validSlides.trans ?_
  simp only [Option.getD_none, id_eq, analyseSlides_range]

def lowMemory : List MemoryDescriptor :=
  [⟨7, 0x100000, 0x20000, 15⟩, ⟨6, 0x20100000, 1, efiMemoryRuntime⟩]

def unanalysed : SlideSupport := ⟨false, false, 100, [], 0⟩

theorem shouldUseCustomSlideOffset_decides_lowMemory :
    (shouldUseCustomSlideOffset (.ok lowMemory) none true unanalysed).2.validSlides =
        List.range 101 ∧
      Decides lowMemory true unanalysed
        (shouldUseCustomSlideOffset (.ok lowMemory) none true unanalysed).1
        (shouldUseCustomSlideOffset (.ok lowMemory) none true unanalysed).2 := by
  have kept : (List.range totalSlideNum).filter (keeps (unanalysed.reset true lowMemory) lowMemory) =
      List.range 101 := by decide
  refine ⟨?_,
    @shouldUseCustomSlideOffset_decides lowMemory unanalysed none true rfl
      ⟨by decide, by decide, by decide⟩ (by decide)⟩
  rw [shouldUseCustomSlideOffset_validSlides rfl, kept]
  exact if_neg (by decide)

def doubleMemory : List MemoryDescriptor := [⟨7, 0x100000, 0x80000, 15⟩, ⟨7, 0x100000, 0x80000, 15⟩]

def hugeRuntime : List MemoryDescriptor :=
  [⟨7, 0, 0x38400, 15⟩, ⟨6, 0x38400000, 0xFFFFFFFFC7BFF, efiMemoryRuntime⟩]

def unlimited : SlideSupport := { unanalysed with provideMaxSlide := 0 }

theorem doubleMemory_free : FreeArea doubleMemory (startAddr false 1)
    (startAddr false 1 + estimatedKernelSize) := by
  intro address above below
  have low : 0x100000 ≤ startAddr false 1 := by decide
  have high : startAddr false 1 + estimatedKernelSize ≤ 0x100000 + 0x80000 * efiPageSize := by decide
  exact ⟨⟨7, 0x100000, 0x80000, 15⟩, mem_cons_self, rfl, low.trans above, below.trans_le high⟩

set_option maxRecDepth 4000 in
theorem doubleMemory_validSlides :
    (shouldUseCustomSlideOffset (.ok doubleMemory) none false unanalysed).2.validSlides = [0] := by
  have kept : (List.range totalSlideNum).filter (keeps (unanalysed.reset false doubleMemory) doubleMemory) =
      [] := by decide
  have slides : List.range totalSlideNum = 0 :: List.range' 1 255 :=
    List.range_eq_range'
  rw [shouldUseCustomSlideOffset_validSlides rfl, if_pos kept, slides]
  rw [analyseSlides_first rfl (by decide)]

theorem hugeRuntime_validSlides :
    255 ∈ (shouldUseCustomSlideOffset (.ok hugeRuntime) none true unlimited).2.validSlides := by
  have kept : 255 ∈ (List.range totalSlideNum).filter
      (keeps (unlimited.reset true hugeRuntime) hugeRuntime) := by decide
  rw [shouldUseCustomSlideOffset_validSlides rfl, if_neg (ne_nil_of_mem kept)]
  exact kept

theorem hugeRuntime_not_free {low high : Nat} (inside : low ≤ 0x38400000 ∧ 0x38400000 < high) :
    ¬ FreeArea hugeRuntime low high := by
  intro free
  obtain ⟨desc, member, kind, _, below⟩ := free 0x38400000 inside.1 inside.2
  rw [hugeRuntime, mem_cons, mem_singleton] at member
  rcases member with rfl | rfl
  · exact absurd below (by decide)
  · exact absurd kind (by decide)

set_option maxRecDepth 4000 in
/-- The fallback is not free memory, and without a memory map there is no slide. What is told twice
counts twice, and an area that wraps passes for free. -/
theorem shouldUseCustomSlideOffset_fallback :
    ((shouldUseCustomSlideOffset (.ok []) none false unanalysed).2.validSlides = [0] ∧
        ¬ FreeArea [] (startAddr false 0) (startAddr false 0 + kernelArea [])) ∧
      shouldUseCustomSlideOffset (.error .notFound) none false unanalysed = (false, unanalysed) ∧
      (1 ∉ (shouldUseCustomSlideOffset (.ok doubleMemory) none false unanalysed).2.validSlides ∧
        FreeArea doubleMemory (startAddr false 1) (startAddr false 1 + kernelArea doubleMemory)) ∧
      255 ∈ (shouldUseCustomSlideOffset (.ok hugeRuntime) none true unlimited).2.validSlides ∧
        ¬ FreeArea hugeRuntime (startAddr true 255) (startAddr true 255 + kernelArea hugeRuntime) := by
  refine ⟨⟨by decide, fun free => ?_⟩, rfl, ⟨?_, doubleMemory_free⟩, hugeRuntime_validSlides,
    hugeRuntime_not_free (by decide)⟩
  · obtain ⟨_, member, _⟩ := free (startAddr false 0) (le_refl _) (by decide)
    cases member
  · rw [doubleMemory_validSlides]
    decide

end Decision

end OpenCore.CustomSlide
