import OpenCore.WalkedChains

/-!
Images of one segment with one page, made to probe a visitor. The chain of such
an image is one slot, or two that are linked, and what the walk visits there
shows the link the visitor has left in the first slot.
-/

namespace OpenCore.WalkProbe

open Base ByteBuffer KernelCollection SlotChain FixupWalk WalkedChains List

section Single
variable (pageSize pointerFormat segmentOffset pageStart : Nat)

def singlePageRecord : Bytes :=
  encode 4 24 ++ (encode 2 pageSize ++ (encode 2 pointerFormat ++ (encode 8 segmentOffset ++
    (encode 4 0 ++ (encode 2 1 ++ (encode 2 pageStart ++ []))))))

def singlePageBlob : Bytes :=
  encode 4 1 ++ (encode 4 8 ++
    singlePageRecord pageSize pointerFormat segmentOffset pageStart)

theorem singlePageRecord_fields (sizeBound : pageSize < u16) (formatBound : pointerFormat < u16)
    (offsetBound : segmentOffset < u64) (startBound : pageStart < u16) :
    let record := singlePageRecord pageSize pointerFormat segmentOffset pageStart
    record.length = 24 ∧ load record 4 0 = 24 ∧ load record 2 4 = pageSize ∧
      load record 2 6 = pointerFormat ∧ load record 8 8 = segmentOffset ∧
      load record 2 20 = 1 ∧ load record 2 22 = pageStart := by
  simp only [u16_val, u64_val] at *
  simp [-append_nil, singlePageRecord, load_append, load_encode, Nat.mod_eq_of_lt,
    sizeBound, formatBound, offsetBound, startBound]

theorem singlePageBlob_fields :
    let blob := singlePageBlob pageSize pointerFormat segmentOffset pageStart
    blob.length = 32 ∧ load blob 4 0 = 1 ∧ load blob 4 4 = 8 ∧
      segmentRecord blob 0 = singlePageRecord pageSize pointerFormat segmentOffset pageStart := by
  have listed : load (singlePageBlob pageSize pointerFormat segmentOffset pageStart) 4 4 = 8 := by
    simp [singlePageBlob, load_append, load_encode]
  refine ⟨?_, ?_, listed, ?_⟩
  · simp [singlePageBlob, singlePageRecord]
  · simp [singlePageBlob, load_encode]
  · simp [segmentRecord, imageHeaderSize, listed]
    simp [singlePageBlob, drop_append]

structure SinglePage (buffer : Bytes) (pageSize pointerFormat stride segmentOffset pageStart : Nat)
    (rest : List Nat) : Prop where
  bound : buffer.length = segmentOffset + pageSize
  addressable : buffer.length < u64
  sizeBound : pageSize < u16
  low : pageStart < startMulti
  format : pointerStride pointerFormat = some stride
  inside : ∀ offset ∈ pageStart :: rest, offset + 8 ≤ pageSize
  apart : (pageStart :: rest).Pairwise fun left right => left + 8 ≤ right
  linked : Linked (fun offset => linkAt buffer stride (segmentOffset + offset)) (pageStart :: rest)

variable {pageSize pointerFormat segmentOffset pageStart}
variable {buffer : Bytes} {stride : Nat} {rest : List Nat}

theorem pointerFormat_lt {pointerFormat stride : Nat}
    (format : pointerStride pointerFormat = some stride) : pointerFormat < u16 := by
  simp only [pointerStride, u16_val] at *
  split at format
  · omega
  · split at format
    · omega
    · cases format

variable (single : SinglePage buffer pageSize pointerFormat stride segmentOffset pageStart rest)
include single

theorem SinglePage.fields :
    let record := singlePageRecord pageSize pointerFormat segmentOffset pageStart
    record.length = 24 ∧ load record 4 0 = 24 ∧ load record 2 4 = pageSize ∧
      load record 2 6 = pointerFormat ∧ load record 8 8 = segmentOffset ∧
      load record 2 20 = 1 ∧ load record 2 22 = pageStart := by
  have bound := single.bound
  have addressable := single.addressable
  have sizeBound := single.sizeBound
  have startRoom := single.inside pageStart (by simp)
  exact singlePageRecord_fields pageSize pointerFormat segmentOffset pageStart sizeBound
    (pointerFormat_lt single.format) (by omega) (by omega)

theorem SinglePage.chains :
    SegmentChains buffer (singlePageRecord pageSize pointerFormat segmentOffset pageStart)
      (fun _ => pageStart :: rest) := by
  have bound := single.bound
  have inside := single.inside
  have startRoom := inside pageStart (by simp)
  obtain ⟨length, size, pageSizeEq, formatEq, offsetEq, countEq, startEq⟩ := single.fields
  have base : pageBase (singlePageRecord pageSize pointerFormat segmentOffset pageStart) 0 =
      segmentOffset := by simp [pageBase, offsetEq]
  refine ⟨by omega, by rw [countEq, size]; decide, ?_, stride, by rw [formatEq, single.format], ?_⟩
  · omega
  · intro page counted
    have first : page = 0 := by omega
    subst first
    refine ⟨startEq, ?_, by rw [pageSizeEq]; exact inside, ?_, single.apart, ?_⟩
    · intro _
      exact and_startMulti single.low
    · intro _
      omega
    · rw [base]
      exact single.linked

theorem SinglePage.visits :
    imageVisits (singlePageBlob pageSize pointerFormat segmentOffset pageStart)
        (fun _ _ => pageStart :: rest) =
      (pageStart :: rest).map fun offset => ⟨0, 0, segmentOffset + offset⟩ := by
  obtain ⟨_, _, _, _, offset, counted, _⟩ := single.fields
  obtain ⟨_, number, listed, record⟩ :=
    singlePageBlob_fields pageSize pointerFormat segmentOffset pageStart
  simp [imageVisits, number, listedVisits, imageHeaderSize, listed, record, segmentVisits,
    counted, pageVisits, pageBase, offset]

theorem SinglePage.image :
    ImageChains buffer (singlePageBlob pageSize pointerFormat segmentOffset pageStart)
      (fun _ _ => pageStart :: rest) := by
  obtain ⟨length, number, listed, record⟩ :=
    singlePageBlob_fields pageSize pointerFormat segmentOffset pageStart
  refine ⟨single.addressable, by rw [number, length]; decide, ?_, ?_⟩
  · intro segment counted _
    have first : segment = 0 := by omega
    subst first
    rw [record]
    exact single.chains
  · rw [single.visits]
    apply pairwise_map.mpr
    exact single.apart.imp fun gap => Or.inl (by simp only; omega)

omit single in
theorem SinglePage.walk {σ : Type} (visitor : Option (Visitor σ)) (context : σ)
    (single : SinglePage buffer pageSize pointerFormat stride segmentOffset pageStart rest) :
    kcWalkChainedFixupsInImage visitor buffer
        (singlePageBlob pageSize pointerFormat segmentOffset pageStart) context =
      walkChain visitor 0 0 stride (segmentOffset + pageSize) (pageSize / 8)
        (segmentOffset + pageStart) ⟨buffer, context, 0, []⟩ := by
  have bound := single.bound
  have startRoom := single.inside pageStart (by simp)
  obtain ⟨blobLength, number, listed, record⟩ :=
    singlePageBlob_fields pageSize pointerFormat segmentOffset pageStart
  obtain ⟨length, _, pageSizeEq, formatEq, offsetEq, countEq, _⟩ := single.fields
  have chains := single.chains
  obtain ⟨found, formatFound, pages⟩ := chains.pages
  rw [formatEq, single.format] at formatFound
  have same := Option.some.inj formatFound
  subst same
  have base : pageBase (singlePageRecord pageSize pointerFormat segmentOffset pageStart) 0 =
      segmentOffset := by simp [pageBase, offsetEq]
  have page := pages 0 (by omega)
  have present : load (singlePageBlob pageSize pointerFormat segmentOffset pageStart) 4
      (imageHeaderSize + 4 * 0) ≠ 0 := by
    rw [imageHeaderSize_val, listed]
    decide
  rw [kcWalkChainedFixupsInImage_eq _ _ _ _ single.image.header, number]
  simp only [range_one, foldlM_cons, foldlM_nil, bind_pure]
  rw [walkSegment_eq visitor _ (fun _ => pageStart :: rest) _ 0
    (by rw [blobLength]; decide) present (by rw [record]; exact chains), record,
    kcWalkChainedFixupsInSegment_eq visitor 0 _ _ _ stride chains (by rw [formatEq, single.format])
      (by rw [pageSizeEq, bound]; exact Nat.le_add_left _ _)
      (by rw [offsetEq, bound]; omega), countEq]
  simp only [range_one, foldlM_cons, foldlM_nil, bind_pure]
  rw [walkPage_eq visitor 0 pageStart rest _ (by rw [length]; decide) single.addressable page,
    base, pageSizeEq]

end Single

section Needed
variable {σ : Type} {visitor : Option (Visitor σ)}

theorem walkChain_visits (segment page stride pageEnd iters slot : Nat) (walk after : Walk σ)
    (positive : 0 < stride) (inside : slot + 8 ≤ pageEnd) (buffered : pageEnd ≤ walk.buffer.length)
    (ran : walkChain visitor segment page stride pageEnd (iters + 2) slot walk = some after) :
    match nextSlot (Rebase.decode
        (callVisitor visitor walk.context slot (load walk.buffer 8 slot)).2).next
        stride slot pageEnd with
    | none => after.visits = walk.visits ++ [⟨segment, page, slot⟩]
    | some target => ∃ more, after.visits =
        walk.visits ++ ⟨segment, page, slot⟩ :: ⟨segment, page, target⟩ :: more := by
  obtain ⟨visited, stepped, first⟩ := visitSlot_covers visitor segment page slot walk (by omega)
  rw [walkChain, stepped, Option.bind_some] at ran
  simp only at ran
  cases target : nextSlot (Rebase.decode
      (callVisitor visitor walk.context slot (load walk.buffer 8 slot)).2).next
      stride slot pageEnd with
  | none =>
    rw [target] at ran
    rw [← Option.some.inj ran]
    exact first.visits
  | some next =>
    obtain ⟨_, _, room⟩ := nextSlot_eq_some target
    have length := first.length
    obtain ⟨second, steppedNext, covered⟩ :=
      visitSlot_covers visitor segment page next visited (by omega)
    rw [target] at ran
    simp only [walkChain, steppedNext, Option.bind_some] at ran
    generalize (Rebase.decode (callVisitor visitor visited.context next
      (load visited.buffer 8 next)).2).next = link at ran
    cases later : nextSlot link stride next pageEnd with
    | none =>
      rw [later] at ran
      refine ⟨[], ?_⟩
      rw [← Option.some.inj ran, covered.visits, first.visits]
      simp
    | some further =>
      obtain ⟨_, _, roomFurther⟩ := nextSlot_eq_some later
      have lengthSecond := covered.length
      obtain ⟨final, ranFinal, _, calls, visits, _⟩ := walkChain_extends visitor segment page
        stride pageEnd iters further second positive roomFurther (by omega)
      simp only [later] at ran
      rw [ranFinal] at ran
      refine ⟨calls, ?_⟩
      rw [← Option.some.inj ran, visits, covered.visits, first.visits]
      simp

/-- A buffer that is zero but for one slot, with a page around the slot that
has room for a step behind it. -/
def probeBase (slot : Nat) : Nat := slot - min slot 8

def probeBuffer (slot value step : Nat) : Bytes :=
  store (replicate (probeBase slot + (step + 16)) 0) 8 slot value

section Probe
variable {slot value step pointerFormat stride : Nat}

theorem probeBuffer_length : (probeBuffer slot value step).length =
    probeBase slot + (step + 16) := by
  rw [probeBuffer, store_length, length_replicate]

theorem probeBase_add (slot : Nat) : probeBase slot + min slot 8 = slot := by
  unfold probeBase
  omega

theorem probeBuffer_slot (bound : value < u64) :
    load (probeBuffer slot value step) 8 slot = value := by
  have base := probeBase_add slot
  rw [probeBuffer, load_store_same _ _ _ _ (by rw [length_replicate]; omega)]
  exact Nat.mod_eq_of_lt bound

theorem probeBuffer_behind (far : 8 ≤ step) :
    load (probeBuffer slot value step) 8 (slot + step) = 0 := by
  have base := probeBase_add slot
  rw [probeBuffer, load_store_apart _ _ _ _ _ _ (by rw [length_replicate]; omega)
    (Or.inl (by omega)), load_zeros]

theorem probe_addressable (value : Nat) (small : step < 0x8000) (room : slot + step + 8 < u64) :
    (probeBuffer slot value step).length < u64 := by
  rw [probeBuffer_length, probeBase]
  simp only [u64_val] at *
  omega

theorem probe_last (bound : value < u64) (small : step < 0x8000) (room : slot + step + 8 < u64)
    (format : pointerStride pointerFormat = some stride) (last : (Rebase.decode value).next = 0) :
    SinglePage (probeBuffer slot value step) (step + 16) pointerFormat stride (probeBase slot)
      (min slot 8) [] := by
  refine ⟨probeBuffer_length, probe_addressable value small room, ?_, ?_, format, ?_, ?_, ?_⟩
  · simp only [u16_val]
    omega
  · simp only [startMulti]
    omega
  · intro offset member
    rw [mem_singleton.mp member]
    omega
  · exact pairwise_singleton _ _
  · show linkAt _ _ _ = 0
    rw [linkAt, probeBase_add, probeBuffer_slot bound, last, zero_mul]

theorem probe_pair (bound : value < u64) (far : 8 ≤ step) (small : step < 0x8000)
    (room : slot + step + 8 < u64) (format : pointerStride pointerFormat = some stride)
    (link : (Rebase.decode value).next * stride = step) :
    SinglePage (probeBuffer slot value step) (step + 16) pointerFormat stride (probeBase slot)
      (min slot 8) [min slot 8 + step] := by
  refine ⟨probeBuffer_length, probe_addressable value small room, ?_, ?_, format, ?_, ?_, ?_, ?_, ?_⟩
  · simp only [u16_val]
    omega
  · simp only [startMulti]
    omega
  · intro offset member
    simp only [mem_cons, not_mem_nil, or_false] at member
    omega
  · rw [pairwise_cons]
    refine ⟨?_, pairwise_singleton _ _⟩
    intro offset member
    rw [mem_singleton.mp member]
    omega
  · omega
  · simp only [linkAt, probeBase_add, probeBuffer_slot bound, link]
    omega
  · show linkAt _ _ _ = 0
    rw [linkAt, ← add_assoc, probeBase_add, probeBuffer_behind far]
    exact zero_mul stride

end Probe

theorem stride_format {stride : Nat} (format : stride = 1 ∨ stride = 4) :
    ∃ pointerFormat, pointerStride pointerFormat = some stride := by
  rcases format with rfl | rfl
  · exact ⟨11, rfl⟩
  · exact ⟨8, rfl⟩

-- A probe of one page per slot and value: what the walk visits there says
-- which link the visitor has left.
theorem probe_shape {slot value step pointerFormat stride : Nat} {rest : List Nat}
    (walks : WalksChains visitor) (context : σ) (bound : value < u64) (positive : 0 < stride)
    (single : SinglePage (probeBuffer slot value step) (step + 16) pointerFormat stride
      (probeBase slot) (min slot 8) rest) :
    match nextSlot (Rebase.decode (callVisitor visitor context slot value).2).next stride slot
        (probeBase slot + (step + 16)) with
    | none => rest = []
    | some target => ∃ offset more, rest = offset :: more ∧ probeBase slot + offset = target := by
  have base := probeBase_add slot
  have iters : (step + 16) / 8 = step / 8 + 2 := by omega
  obtain ⟨walk, ran, visits⟩ := walks _ _ context _ single.image
  rw [single.walk, base, iters] at ran
  have shape := walkChain_visits 0 0 stride _ (step / 8) slot _ walk positive (by omega)
    (by simp only [probeBuffer_length]; exact le_refl _) ran
  simp only [probeBuffer_slot bound, single.visits, visits, nil_append, map_cons] at shape
  cases target : nextSlot (Rebase.decode (callVisitor visitor context slot value).2).next
      stride slot (probeBase slot + (step + 16)) with
  | none =>
    simp only [target, base, List.cons.injEq, true_and, map_eq_nil_iff] at shape
    exact shape
  | some next =>
    simp only [target, List.cons.injEq] at shape
    obtain ⟨more, _, tail⟩ := shape
    obtain ⟨offset, others, rfl, first, _⟩ := map_eq_cons_iff.mp tail
    exact ⟨offset, others, rfl, congrArg Visit.slot first⟩

theorem step_small {value stride : Nat} (strides : stride = 1 ∨ stride = 4) :
    (Rebase.decode value).next * stride < 0x8000 := by
  have link := Rebase.decode_next_lt value
  rcases strides with rfl | rfl <;> omega

theorem walksChains_keepsLinks (walks : WalksChains visitor) : KeepsLinks visitor := by
  intro context slot value stride bound strides
  obtain ⟨pointerFormat, format⟩ := stride_format strides
  have positive : 0 < stride := by omega
  have base := probeBase_add slot
  constructor
  · intro far room
    have shape := probe_shape walks context bound positive
      (probe_pair bound far (step_small strides) room format rfl)
    split at shape
    · cases shape
    · rename_i target found
      obtain ⟨_, targetEq, _⟩ := nextSlot_eq_some found
      obtain ⟨offset, more, pair, reached⟩ := shape
      have second := (List.cons.inj pair).1
      exact Nat.eq_of_mul_eq_mul_right positive (by omega)
  · intro last room
    by_contra linked
    have shape := probe_shape walks context bound positive
      (probe_last bound (step_small strides) room format last)
    have addressable := probe_addressable value (step_small strides) room
    rw [probeBuffer_length] at addressable
    rw [nextSlot_of_linked linked (by omega) addressable] at shape
    obtain ⟨offset, more, none, _⟩ := shape
    cases none

end Needed

end OpenCore.WalkProbe
