import OpenCore.KernelDigest

/-!
What `ReadAppleKernel` returns: the digest of the whole file, memory for the
kernel and what is reserved behind it, and the selected slice. A compressed slice
is decompressed as its header says, also where its data go beyond the slice.
-/

namespace OpenCore.KernelSlice

open Base ByteBuffer ByteSlices KernelReader KernelDigest List

section Selection

variable {file : Bytes} {prefer32Bit : Bool}
variable {buffer : Bytes} {found : Nat × Nat}

def isFat (magic : Nat) : Prop :=
  magic = machFatBinarySignature ∨ magic = machFatBinaryInvertSignature

instance (magic : Nat) : Decidable (isFat magic) := inferInstanceAs (Decidable (_ ∨ _))

def selectedSlice (file : Bytes) (prefer32Bit : Bool) : Option (Nat × Nat) :=
  if isFat (load file 4 0) then
    (parseFatArchitecture file prefer32Bit (slice file 0 kernelHeaderSize) kernelHeaderSize).map
      fun found => found.2
  else some (0, file.length)

def isCompressed (file : Bytes) (offset : Nat) : Prop :=
  load file 4 offset = machCompressedBinaryInvertSignature

instance (file : Bytes) (offset : Nat) : Decidable (isCompressed file offset) :=
  inferInstanceAs (Decidable (_ = _))

def headerAt (file : Bytes) (offset : Nat) : CompHeader :=
  compHeader (slice file offset kernelHeaderSize)

theorem load_header (file : Bytes) (offset : Nat) :
    load (slice file offset kernelHeaderSize) 4 0 = load file 4 offset := by
  apply load_congr
  intro index inside
  have within : index < kernelHeaderSize := by
    rw [kernelHeaderSize]
    omega
  rw [zero_add, byteAt, byteAt, List.getD, List.getD, getElem?_slice, if_pos within]

theorem findArchitecture_inside {swap : Nat → Nat} {fullSize cpuType : Nat} {left index : Nat}
    (finds : findArchitecture buffer swap fullSize cpuType left index = some (some found)) :
    found.1 ≠ 0 ∧ found.1 + found.2 ≤ fullSize := by
  induction left generalizing index with
  | zero => cases finds
  | succ left ih =>
    rw [findArchitecture] at finds
    simp only at finds
    split at finds
    · split at finds
      · cases finds
      · next some =>
          split at finds
          · cases finds
          · next top added =>
              obtain ⟨rfl, _⟩ := baseOverflowAdd_eq_some added
              split at finds
              · cases finds
              · next inside =>
                  cases finds
                  exact ⟨some, Nat.not_lt.mp inside⟩
    · exact ih finds

theorem fatGetArchitectureOffset_inside {bufferSize fullSize cpuType : Nat} (fat : isFat (load buffer 4 0))
    (finds : fatGetArchitectureOffset buffer bufferSize fullSize cpuType = some (some found)) :
    found.1 ≠ 0 ∧ found.1 + found.2 ≤ fullSize := by
  unfold fatGetArchitectureOffset at finds
  split at finds
  · cases finds
  · simp only at finds
    split at finds
    · next other =>
        rcases fat with plain | invert
        · exact absurd plain other.2.1
        · exact absurd invert other.1
    · split at finds
      · cases finds
      · split at finds
        · cases finds
        · exact findArchitecture_inside finds

theorem parseFatArchitecture_inside {bufferSize : Nat}
    {found : Bool × Nat × Nat} (fat : isFat (load buffer 4 0))
    (parses : parseFatArchitecture file prefer32Bit buffer bufferSize = some found) :
    file.length < u32 ∧ found.2.1 ≠ 0 ∧ found.2.1 + found.2.2 ≤ file.length := by
  obtain ⟨fileSize, size, parses⟩ := Option.bind_eq_some_iff.mp parses
  obtain ⟨small, rfl⟩ := ocGetFileSize_eq size
  refine ⟨small, ?_⟩
  split at parses
  · cases parses
  · simp only at parses
    split at parses
    · next inner first =>
        obtain ⟨slice, rfl, rfl⟩ := Option.map_eq_some_iff.mp parses
        exact fatGetArchitectureOffset_inside fat first
    · split at parses
      · next inner second =>
          obtain ⟨slice, rfl, rfl⟩ := Option.map_eq_some_iff.mp parses
          exact fatGetArchitectureOffset_inside fat second
      · cases parses

end Selection

section Memory

variable {targetSize allocatedSize reservedSize after : Nat} {allocated : Bool}

/-- Memory for a kernel and what is reserved behind it, with a size that did not wrap. -/
def HasMemory (reservedSize : Nat) (image : Image) : Prop :=
  image.kernelSize + reservedSize ≤ image.allocatedSize ∧ image.allocatedSize < u32

theorem replaceBuffer_fits (small : allocatedSize < u32)
    (replaced : replaceBuffer targetSize allocatedSize reservedSize allocated = some after) :
    targetSize + reservedSize ≤ after ∧ after < u32 := by
  obtain ⟨total, added, replaced⟩ := Option.bind_eq_some_iff.mp replaced
  obtain ⟨rfl, bounded⟩ := baseOverflowAdd_eq_some added
  split at replaced
  · next enough =>
      cases replaced
      exact ⟨enough, small⟩
  · split at replaced
    · cases replaced
      exact ⟨Nat.le_refl _, bounded⟩
    · cases replaced

end Memory

section Images

variable (env : Externals) (file : Bytes)

structure HeaderRead (offset : Nat) (image : Image) : Prop where
  header : image.buffer = slice file offset kernelHeaderSize
  inside : offset + kernelHeaderSize ≤ file.length
  fed : ∀ digest ∈ image.digest, Fed file digest
  reached : ∀ digest ∈ image.digest, offset ≤ digest.position
  place : image.selected.1 = offset
  within : offset + image.selected.2 ≤ file.length
  size : image.selected.2 = if offset = 0 then file.length else image.kernelSize

structure AtHeader (offset : Nat) (needDigest : Bool) (image : Image) : Prop where
  plain : image.compressed = none
  digested : image.digest.isSome = needDigest
  allocated : image.allocatedSize < u32
  known : offset = 0 ∨ file.length < u32
  facts : file.length < u32 → HeaderRead file offset image

/-- The bytes of an image: those of its slice, or decompressed from where its header is. -/
def HasContent (image : Image) : Prop :=
  match image.compressed with
  | none =>
    ¬ isCompressed file image.selected.1 ∧ image.kernelSize = image.selected.2 ∧
      image.buffer = slice file image.selected.1 image.selected.2
  | some data =>
    let header := headerAt file image.selected.1
    isCompressed file image.selected.1 ∧ 0 < header.compressedSize ∧
      image.kernelSize = header.decompressedSize ∧
      image.buffer = (decompress env header data).2 ∧
        data = slice file (image.selected.1 + machCompHeaderSize) header.compressedSize ∧
          image.selected.1 + machCompHeaderSize + header.compressedSize ≤ file.length

structure ImageRead (selected : Nat × Nat) (image : Image) : Prop where
  fed : ∀ digest ∈ image.digest, Fed file digest
  chosen : image.selected = selected
  within : selected.1 + selected.2 ≤ file.length
  content : HasContent env file image

end Images

section Reading

variable {env : Externals} {allocations : Allocations} {file : Bytes}
  {reservedSize offset : Nat} {needDigest : Bool} {image : Image}

theorem header_magic (read : HeaderRead file offset image) :
    load image.buffer 4 0 = load file 4 offset := by
  rw [read.header, load_header]

def Reads (env : Externals) (file : Bytes) (reservedSize : Nat) (needDigest : Bool)
    (selected : Nat × Nat) (image : Image) : Prop :=
  HasMemory reservedSize image ∧ image.digest.isSome = needDigest ∧
    (file.length < u32 → ImageRead env file selected image)

theorem readMacho_reads {magic : Nat} (atHeader : AtHeader file offset needDigest image)
    (macho : magic ≠ machCompressedBinaryInvertSignature) (same : magic = load image.buffer 4 0) :
    Ensures (readMacho allocations file reservedSize offset magic image)
      (Reads env file reservedSize needDigest image.selected) := by
  apply Ensures.bind (Ensures.ofOption fun arch found => found)
  intro arch found
  simp only [atHeader.plain, Option.isSome_none, Bool.false_eq_true, if_false]
  apply Ensures.bind (Ensures.ofOption fun size found => found)
  intro kernelSize sized
  apply Ensures.bind (Ensures.ofOption fun size replaced => replaced)
  intro allocatedSize replaced
  have moves : 0 < kernelSize ∨ ∀ old ∈ image.digest, offset ≤ old.position := by
    refine Or.inr fun old member => ?_
    rcases atHeader.known with front | small
    · rw [front]
      exact Nat.zero_le _
    · exact (atHeader.facts small).reached old member
  apply Ensures.bind (kernelGetFileData_reads moves)
  rintro after ⟨some, reads⟩
  refine ⟨replaceBuffer_fits atHeader.allocated replaced, some.trans atHeader.digested,
    fun small => ?_⟩
  have read := atHeader.facts small
  have size : kernelSize = image.selected.2 := by
    rw [read.size]
    split at sized
    · next front =>
        rw [if_pos front]
        exact (ocGetFileSize_eq sized).2
    · next inner =>
        rw [if_neg inner]
        exact (Option.some.inj sized).symm
  have readAt := reads small read.fed
  have chosen : (offset, kernelSize) = image.selected := by
    rw [← read.place, size]
  have plain : ¬ isCompressed file offset := by
    rw [isCompressed, ← header_magic read, ← same]
    exact macho
  constructor
  · exact readAt.fed
  · exact chosen
  · rw [read.place]
    exact read.within
  · rw [HasContent]
    exact ⟨plain, rfl, readAt.data⟩

theorem parseCompressedHeader_reads (atHeader : AtHeader file offset needDigest image)
    (compressed : load image.buffer 4 0 = machCompressedBinaryInvertSignature) :
    Ensures (parseCompressedHeader env allocations file reservedSize offset image)
      fun after => after.compressed.isSome = true ∧
        Reads env file reservedSize needDigest image.selected after := by
  apply Ensures.bind Ensures.check
  intro _ checked
  simp only [CompHeader.sizesAllowed, Bool.and_eq_true, bne_iff_ne, ne_eq] at checked
  apply Ensures.bind (Ensures.ofOption fun size replaced => replaced)
  intro allocatedSize replaced
  apply Ensures.bind Ensures.check
  intro _ _
  apply Ensures.bind (kernelGetFileData_reads (Or.inl (Nat.pos_of_ne_zero checked.1.1.2)))
  rintro after ⟨some, reads⟩
  apply Ensures.bind Ensures.check
  intro _ _
  refine ⟨rfl, replaceBuffer_fits atHeader.allocated replaced, some.trans atHeader.digested,
    fun small => ?_⟩
  have read := atHeader.facts small
  have header : compHeader image.buffer = headerAt file image.selected.1 := by
    rw [headerAt, read.place, read.header]
  have place : (offset + machCompHeaderSize) % u32 = image.selected.1 + machCompHeaderSize := by
    have inside := read.inside
    rw [read.place, Nat.mod_eq_of_lt]
    rw [kernelHeaderSize] at inside
    rw [machCompHeaderSize]
    omega
  have readAt := reads small read.fed
  rw [place, header] at readAt
  constructor
  · exact readAt.fed
  · rfl
  · rw [read.place]
    exact read.within
  · have here : isCompressed file image.selected.1 := by
      rw [isCompressed, read.place, ← header_magic read]
      exact compressed
    have positive : 0 < (headerAt file image.selected.1).compressedSize := by
      rw [← header]
      exact Nat.pos_of_ne_zero checked.1.1.2
    rw [HasContent]
    simp only [header]
    exact ⟨here, positive, trivial, trivial, readAt.data, readAt.inside positive⟩

end Reading

section Loop

variable {env : Externals} {allocations : Allocations} {file : Bytes}
  {reservedSize offset turns : Nat} {needDigest prefer32Bit forbidFat : Bool} {image : Image}
variable {digest : Option Digest} {selected : Nat × Nat}

theorem magics_differ {magic : Nat}
    (macho : magic = machHeaderSignature ∨ magic = machHeader64Signature) :
    magic ≠ machCompressedBinaryInvertSignature := by
  rcases macho with rfl | rfl <;> decide

theorem readLoop_decompressed {property : Image → Prop} (there : image.compressed.isSome = true)
    (holds : ∀ arch, property { image with arch }) :
    Ensures (readLoop env allocations file reservedSize prefer32Bit (turns + 1) offset true
      image) property := by
  rw [readLoop]
  simp only [there, if_true]
  split
  · apply Ensures.bind (Ensures.ofOption fun arch found => found)
    intro arch _
    rw [if_pos there]
    exact holds arch
  · split
    · trivial
    · split <;> trivial

theorem reads_arch (arch : KernelArch)
    (reads : Reads env file reservedSize needDigest selected image) :
    Reads env file reservedSize needDigest selected { image with arch } := by
  refine ⟨reads.1, reads.2.1, fun small => ?_⟩
  obtain ⟨fed, chosen, within, content⟩ := reads.2.2 small
  exact ⟨fed, chosen, within, content⟩

theorem readLoop_slice (atHeader : AtHeader file offset needDigest image)
    (thin : forbidFat = true ∨ ¬ isFat (load image.buffer 4 0)) :
    Ensures (readLoop env allocations file reservedSize prefer32Bit (turns + 2) offset
      forbidFat image) (Reads env file reservedSize needDigest image.selected) := by
  rw [readLoop]
  simp only
  split
  · next macho => exact readMacho_reads atHeader (magics_differ macho) rfl
  · split
    · next fat =>
        rcases thin with forbidden | other
        · rw [if_pos forbidden]
          trivial
        · exact absurd fat other
    · split
      · next compressed =>
          simp only [atHeader.plain, Option.isSome_none, Bool.false_eq_true, if_false]
          apply Ensures.bind (parseCompressedHeader_reads atHeader compressed)
          rintro after ⟨there, reads⟩
          exact readLoop_decompressed there fun arch => reads_arch arch reads
      · trivial

theorem atHeader_front {buffer : Bytes}
    (reads : file.length < u32 → ReadAt file 0 kernelHeaderSize digest (buffer, image.digest))
    (header : image.buffer = buffer) (digested : image.digest.isSome = needDigest)
    (plain : image.compressed = none) (allocated : image.allocatedSize < u32)
    (chosen : image.selected = (0, file.length)) : AtHeader file 0 needDigest image := by
  refine ⟨plain, digested, allocated, Or.inl rfl, fun small => ?_⟩
  have readAt := reads small
  constructor
  · rw [header]
    exact readAt.data
  · exact readAt.inside (by decide)
  · exact readAt.fed
  · exact fun _ _ => Nat.zero_le _
  · rw [chosen]
  · rw [chosen, zero_add]
  · rw [chosen, if_pos rfl]

theorem atHeader_slice {found : Bool × Nat × Nat} {after : Bytes × Option Digest}
    {arch : KernelArch} (atHeader : AtHeader file 0 needDigest image)
    (parses : parseFatArchitecture file prefer32Bit image.buffer kernelHeaderSize = some found)
    (fat : isFat (load image.buffer 4 0)) (some : after.2.isSome = image.digest.isSome)
    (reads : file.length < u32 → (∀ old ∈ image.digest, Fed file old) →
      ReadAt file found.2.1 kernelHeaderSize image.digest after) :
    AtHeader file found.2.1 needDigest
      { image with arch, buffer := after.1, digest := after.2, kernelSize := found.2.2,
                   selected := (found.2.1, found.2.2) } := by
  obtain ⟨small, inner, within⟩ := parseFatArchitecture_inside fat parses
  refine ⟨atHeader.plain, some.trans atHeader.digested, atHeader.allocated, Or.inr small,
    fun _ => ?_⟩
  have read := atHeader.facts small
  have readAt := reads small read.fed
  constructor
  · exact readAt.data
  · exact readAt.inside (by decide)
  · exact readAt.fed
  · exact readAt.reached (by decide)
  · rfl
  · exact within
  · rw [if_neg inner]

def ReadsFile (env : Externals) (file : Bytes) (reservedSize : Nat)
    (prefer32Bit needDigest : Bool) (image : Image) : Prop :=
  HasMemory reservedSize image ∧ image.digest.isSome = needDigest ∧ (file.length < u32 →
    selectedSlice file prefer32Bit = some image.selected ∧
      ImageRead env file image.selected image)

theorem readsFile_of_reads (reads : Reads env file reservedSize needDigest selected image)
    (chosen : file.length < u32 → selectedSlice file prefer32Bit = some selected) :
    ReadsFile env file reservedSize prefer32Bit needDigest image := by
  refine ⟨reads.1, reads.2.1, fun small => ?_⟩
  have read := reads.2.2 small
  rw [read.chosen]
  exact ⟨chosen small, read⟩

theorem readLoop_file (atHeader : AtHeader file 0 needDigest image)
    (whole : image.selected = (0, file.length)) :
    Ensures (readLoop env allocations file reservedSize prefer32Bit imageTurns 0 false image)
      (ReadsFile env file reservedSize prefer32Bit needDigest) := by
  by_cases fat : isFat (load image.buffer 4 0)
  · have other : ¬ (load image.buffer 4 0 = machHeaderSignature ∨
        load image.buffer 4 0 = machHeader64Signature) := by
      rcases fat with plain | invert
      · rw [plain]
        decide
      · rw [invert]
        decide
    rw [imageTurns, readLoop]
    have either : load image.buffer 4 0 = machFatBinarySignature ∨
        load image.buffer 4 0 = machFatBinaryInvertSignature := fat
    simp only [if_neg other, if_pos either, Bool.false_eq_true, if_false]
    apply Ensures.bind (Ensures.ofOption fun found parses => parses)
    intro found parses
    apply Ensures.bind (kernelGetFileData_reads (Or.inl (by decide)))
    rintro after ⟨some, reads⟩
    obtain ⟨small, inner, _⟩ := parseFatArchitecture_inside fat parses
    have forbidden : decide (0 < found.2.1) = true := decide_eq_true (Nat.pos_of_ne_zero inner)
    refine Ensures.mono (readLoop_slice (atHeader_slice atHeader parses fat some reads)
      (Or.inl forbidden)) ?_
    intro after read
    apply readsFile_of_reads read
    intro _
    have header := (atHeader.facts small).header
    have front : isFat (load file 4 0) := by
      rw [← header_magic (atHeader.facts small)]
      exact fat
    rw [selectedSlice, if_pos front, ← header, parses]
    rfl
  · apply (readLoop_slice atHeader (Or.inr fat)).mono
    intro after read
    apply readsFile_of_reads read
    intro small
    have front : ¬ isFat (load file 4 0) := by
      rw [← header_magic (atHeader.facts small)]
      exact fat
    rw [selectedSlice, if_neg front, whole]

theorem readAppleKernelImage_reads {allocatedSize : Nat}
    (allocated : allocatedSize < u32) (fresh : ∀ old ∈ digest, Fed file old) :
    Ensures (readAppleKernelImage env allocations file reservedSize prefer32Bit allocatedSize
      digest) (ReadsFile env file reservedSize prefer32Bit digest.isSome) := by
  apply Ensures.bind (kernelGetFileData_reads (Or.inl (by decide)))
  rintro after ⟨some, reads⟩
  apply readLoop_file
  · exact atHeader_front (fun small => reads small fresh) rfl some rfl allocated rfl
  · rfl

end Loop

section Kernels

variable {env : Externals} {allocations : Allocations} {file : Bytes} {reservedSize : Nat}
  {prefer32Bit : Bool}

/-- The kernel is the selected slice, or it was decompressed from what the slice holds
behind its header, up to the size that the header gives. -/
def HoldsSlice (env : Externals) (file : Bytes) (selected : Nat × Nat) (kernel : Kernel) :
    Prop :=
  let bytes := slice file selected.1 selected.2
  let header := headerAt file selected.1
  if isCompressed file selected.1 then
    kernel.image.compressed = some (slice bytes machCompHeaderSize header.compressedSize) ∧
      kernel.kernel = (decompress env header
        (slice bytes machCompHeaderSize header.compressedSize)).2.take header.decompressedSize
  else kernel.kernel = bytes

def DataInside (file : Bytes) (selected : Nat × Nat) : Prop :=
  isCompressed file selected.1 →
    machCompHeaderSize + (headerAt file selected.1).compressedSize ≤ selected.2

instance (file : Bytes) (selected : Nat × Nat) : Decidable (DataInside file selected) :=
  inferInstanceAs (Decidable (_ → _))

structure KernelRight (env : Externals) (file : Bytes) (reservedSize : Nat)
    (prefer32Bit : Bool) (kernel : Kernel) : Prop where
  digest : kernel.digest = some (env.sha384 file)
  memory : HasMemory reservedSize kernel.image
  holds : ∀ selected, selectedSlice file prefer32Bit = some selected →
    HoldsSlice env file selected kernel

def KernelMade (env : Externals) (file : Bytes) (reservedSize : Nat) (prefer32Bit : Bool)
    (kernel : Kernel) : Prop :=
  kernel.digest = some (env.sha384 file) ∧ file.length < u32 ∧
    kernel.kernel = kernel.image.buffer.take kernel.image.kernelSize ∧
      ReadsFile env file reservedSize prefer32Bit true kernel.image

theorem readAppleKernel_made :
    Ensures (readAppleKernel env allocations file reservedSize prefer32Bit true)
      (KernelMade env file reservedSize prefer32Bit) := by
  apply Ensures.bind Ensures.check
  intro _ _
  have fresh : ∀ old ∈ some ({ fed := [], position := 0 } : Digest), Fed file old := by
    rintro _ ⟨⟩
    exact ⟨rfl, Nat.zero_le _⟩
  apply Ensures.bind (readAppleKernelImage_reads (by decide) fresh)
  intro image reads
  simp only
  split
  · next none =>
      have some := reads.2.1
      rw [none] at some
      cases some
  · next digest some =>
      apply Ensures.bind readRemainder_feeds
      rintro last ⟨small, feeds⟩
      have fed := (reads.2.2 small).2.fed digest some
      refine ⟨?_, small, rfl, reads⟩
      simp only
      rw [feeds fed]

theorem kernelMade_of_done {kernel : Kernel}
    (done : readAppleKernel env allocations file reservedSize prefer32Bit true =
      .done kernel) : KernelMade env file reservedSize prefer32Bit kernel := by
  have ensures := @readAppleKernel_made env allocations file reservedSize prefer32Bit
  rw [done] at ensures
  exact ensures

theorem holdsSlice_iff {kernel : Kernel}
    (made : KernelMade env file reservedSize prefer32Bit kernel) :
    HoldsSlice env file kernel.image.selected kernel ↔ DataInside file kernel.image.selected := by
  obtain ⟨_, small, taken, reads⟩ := made
  have read := (reads.2.2 small).2
  have content := read.content
  unfold HasContent at content
  split at content
  · obtain ⟨plain, size, buffer⟩ := content
    have holds : kernel.kernel = slice file kernel.image.selected.1 kernel.image.selected.2 := by
      rw [taken, buffer, size, slice, take_take, Nat.min_self]
    exact ⟨fun _ compressed => absurd compressed plain,
      fun _ => by rw [HoldsSlice]; simp only [if_neg plain, holds]⟩
  · next data some =>
      obtain ⟨compressed, positive, size, buffer, rfl, inside⟩ := content
      rw [HoldsSlice]
      simp only [if_pos compressed, some, Option.some.injEq]
      constructor
      · rintro ⟨same, _⟩ _
        -- the data that were read are as long as the header says, those of the slice are not
        have lengths := congrArg List.length same
        rw [length_slice inside, slice_length_le, slice_length_le] at lengths
        omega
      · intro fits
        have same := @slice_slice file kernel.image.selected.1 kernel.image.selected.2
          machCompHeaderSize _ (fits compressed)
        rw [same]
        exact ⟨rfl, by rw [taken, buffer, size]⟩

/-- `ReadAppleKernel` returns, and with a digest, memory and the selected slice, if the
compressed data of the slice are in it. -/
theorem readAppleKernel_right :
    readAppleKernel env allocations file reservedSize prefer32Bit true ≠ .spins ∧
      ∀ kernel, readAppleKernel env allocations file reservedSize prefer32Bit true =
          .done kernel →
        ∃ selected, selectedSlice file prefer32Bit = some selected ∧
          (KernelRight env file reservedSize prefer32Bit kernel ↔
            DataInside file selected) := by
  constructor
  · intro spins
    have ensures := @readAppleKernel_made env allocations file reservedSize prefer32Bit
    rw [spins] at ensures
    exact ensures
  · intro kernel done
    have made := kernelMade_of_done done
    have chosen := (made.2.2.2.2.2 made.2.1).1
    refine ⟨_, chosen, ?_⟩
    rw [← holdsSlice_iff made]
    constructor
    · intro right
      exact right.holds _ chosen
    · intro holds
      refine ⟨made.1, made.2.2.2.1, ?_⟩
      intro selected same
      rw [chosen] at same
      cases same
      exact holds

end Kernels

section Compressed

theorem parseCompressedHeader_done {env : Externals} {allocations : Allocations}
    {file data : Bytes} {reservedSize offset allocatedSize : Nat} {image : Image}
    {digest : Option Digest} {header : CompHeader} (same : compHeader image.buffer = header)
    (sizes : header.sizesAllowed = true)
    (replaced : replaceBuffer header.decompressedSize image.allocatedSize reservedSize
      allocations.replaced = some allocatedSize)
    (compressed : allocations.compressed = true)
    (reads : kernelGetFileData file ((offset + machCompHeaderSize) % u32) header.compressedSize
      image.digest = .done (data, digest))
    (result : ((decompress env header data).1 % u32 == header.decompressedSize) = true) :
    parseCompressedHeader env allocations file reservedSize offset image = .done { image with
        buffer := (decompress env header data).2, kernelSize := header.decompressedSize,
        allocatedSize, digest, compressed := some data } := by
  subst same
  unfold parseCompressedHeader
  dsimp only
  rw [sizes, replaced, compressed, Outcome.check_true, Outcome.ofOption_some, Outcome.bind_done,
    Outcome.bind_done, Outcome.bind_done, reads, Outcome.bind_done, result, Outcome.check_true,
    Outcome.bind_done]

/-- A kernel of 64 bits with blanks behind its magic, as LZSS compresses it. -/
def compressedKernel : Bytes :=
  [0x0F, 0xCF, 0xFA, 0xED, 0xFE, 0, 0x0F, 0, 0x0F, 0, 0x0F, 0, 0x0F] ++
    (replicate 56 [0, 0, 0x0F, 0, 0x0F, 0, 0x0F, 0, 0x0F, 0, 0x0F, 0, 0x0F, 0, 0x0F, 0, 0x0F]).flatten ++
      [0, 0, 0x0F, 0, 0x0F, 0, 0x0D]

/-- A FAT file with one compressed slice at 64, with room for its data or without. -/
def fatKernel (roomy : Bool) : Bytes :=
  [0xCA, 0xFE, 0xBA, 0xBE, 0, 0, 0, 1, 1, 0, 0, 7, 0, 0, 0, 3, 0, 0, 0, 64] ++
    (if roomy then [0, 0, 0x05, 0x4C] else [0, 0, 0x04, 0]) ++ replicate 40 0 ++
    [0x63, 0x6F, 0x6D, 0x70, 0x6C, 0x7A, 0x73, 0x73, 0, 0, 0, 0, 0, 0, 0x20, 0, 0, 0, 0x03, 0xCC] ++
    replicate 364 0 ++ compressedKernel ++ replicate 7000 0

def blankImage : Bytes := [0xCF, 0xFA, 0xED, 0xFE] ++ replicate 8188 0x20

def blankKernel : Externals where
  decompressLzvn := fun _ _ => (0, [])
  decompressLzss := fun size _ => (size, blankImage)
  sha384 := id

def allAllocated : Allocations where
  kernel := true
  replaced := true
  compressed := true
  remainder := true

theorem fatKernel_length (roomy : Bool) : (fatKernel roomy).length = 8420 := by
  cases roomy <;>
    simp only [fatKernel, compressedKernel, length_append, length_replicate,
      length_flatten, map_replicate, sum_replicate, length_cons,
      length_nil, if_true, if_false, Bool.false_eq_true] <;> rfl

theorem fatKernel_small (roomy : Bool) : (fatKernel roomy).length < u32 := by
  rw [fatKernel_length]
  decide

theorem fatKernel_parses (roomy : Bool) :
    parseFatArchitecture (fatKernel roomy) false (slice (fatKernel roomy) 0 kernelHeaderSize)
      kernelHeaderSize = some (false, 64, if roomy then 1356 else 1024) := by
  rw [parseFatArchitecture, ocGetFileSize, fatKernel_length]
  revert roomy
  decide

theorem fatKernel_slice (roomy : Bool) :
    load (fatKernel roomy) 4 0 = machFatBinaryInvertSignature ∧
      load (fatKernel roomy) 4 64 = machCompressedBinaryInvertSignature ∧
        (headerAt (fatKernel roomy) 64).compression = machCompressedBinaryInvertLzss ∧
          (headerAt (fatKernel roomy) 64).compressedSize = 972 ∧
            (headerAt (fatKernel roomy) 64).decompressedSize = 8192 := by
  revert roomy
  decide

theorem fatKernel_decompressed (roomy : Bool) (data : Bytes) :
    (decompress blankKernel (headerAt (fatKernel roomy) 64) data).1 = 8192 ∧
      load (decompress blankKernel (headerAt (fatKernel roomy) 64) data).2 4 0 =
        machHeader64Signature := by
  obtain ⟨_, _, compression, _, decompressed⟩ := fatKernel_slice roomy
  have lzss : machCompressedBinaryInvertLzss ≠ machCompressedBinaryInvertLzvn := by decide
  have magic : load blankImage 4 0 = machHeader64Signature := by decide
  rw [decompress, compression, if_neg lzss, if_pos rfl, decompressed]
  exact ⟨rfl, magic⟩

theorem fatKernel_image {roomy : Bool} {image : Image} {digest : Digest}
    (there : image.digest = some digest) (fed : Fed (fatKernel roomy) digest)
    (header : image.buffer = slice (fatKernel roomy) 64 kernelHeaderSize)
    (plain : image.compressed = none) (arch : image.arch = .arch64)
    (allocated : image.allocatedSize = kernelHeaderSize) :
    ∃ after last, readLoop blankKernel allAllocated (fatKernel roomy) 0 false 2 64 true image =
      .done after ∧ after.digest = some last ∧ Fed (fatKernel roomy) last := by
  obtain ⟨_, compressed, _, size, decompressed⟩ := fatKernel_slice roomy
  have magic : load image.buffer 4 0 = machCompressedBinaryInvertSignature := by
    rw [header, load_header]
    exact compressed
  have inside : (64 + machCompHeaderSize) % u32 + 972 ≤ (fatKernel roomy).length := by
    rw [fatKernel_length]
    decide
  obtain ⟨last, reads, lastFed⟩ := kernelGetFileData_done (fatKernel_small roomy) fed
    (by decide : 0 < 972) inside
  obtain ⟨result, magic64⟩ := fatKernel_decompressed roomy
    (slice (fatKernel roomy) ((64 + machCompHeaderSize) % u32) 972)
  have same : compHeader image.buffer = headerAt (fatKernel roomy) 64 := by
    rw [headerAt, header]
  have parses := @parseCompressedHeader_done blankKernel allAllocated (fatKernel roomy)
    (slice (fatKernel roomy) ((64 + machCompHeaderSize) % u32) 972) 0 64 kernelHeaderSize image
    (some last) (headerAt (fatKernel roomy) 64) same
    (by rw [CompHeader.sizesAllowed, size, decompressed]; decide)
    (by rw [decompressed, allocated]; decide) rfl (by rw [size, there]; exact reads)
    (by rw [result, decompressed]; decide)
  have fat : ¬ (machCompressedBinaryInvertSignature = machFatBinarySignature ∨
      machCompressedBinaryInvertSignature = machFatBinaryInvertSignature) := by decide
  have macho : ¬ (machCompressedBinaryInvertSignature = machHeaderSignature ∨
      machCompressedBinaryInvertSignature = machHeader64Signature) := by decide
  have matches64 : matchArch .arch64 machHeader64Signature = some .arch64 := by decide
  rw [readLoop]
  dsimp only
  rw [magic, if_neg macho, if_neg fat, if_pos rfl, plain, Option.isSome_none,
    if_neg Bool.false_ne_true, parses, Outcome.bind_done, readLoop]
  dsimp only
  rw [magic64, if_pos (Or.inr rfl), readMacho, arch, matches64, Outcome.ofOption_some,
    Outcome.bind_done]
  dsimp only
  rw [Option.isSome_some, if_pos rfl]
  exact ⟨_, last, rfl, rfl, lastFed⟩

theorem fatKernel_done (roomy : Bool) :
    ∃ kernel, readAppleKernel blankKernel allAllocated (fatKernel roomy) 0 false true =
      .done kernel := by
  have start : Fed (fatKernel roomy) { fed := [], position := 0 } := ⟨rfl, Nat.zero_le _⟩
  have headerInside : 0 + kernelHeaderSize ≤ (fatKernel roomy).length := by
    rw [fatKernel_length]
    decide
  have sliceInside : 64 + kernelHeaderSize ≤ (fatKernel roomy).length := by
    rw [fatKernel_length]
    decide
  obtain ⟨first, front, firstFed⟩ := kernelGetFileData_done (fatKernel_small roomy) start
    (by decide : 0 < kernelHeaderSize) headerInside
  obtain ⟨second, inner, secondFed⟩ := kernelGetFileData_done (fatKernel_small roomy) firstFed
    (by decide : 0 < kernelHeaderSize) sliceInside
  have fat : load (slice (fatKernel roomy) 0 kernelHeaderSize) 4 0 =
      machFatBinaryInvertSignature := by
    rw [load_header]
    exact (fatKernel_slice roomy).1
  have macho : ¬ (machFatBinaryInvertSignature = machHeaderSignature ∨
      machFatBinaryInvertSignature = machHeader64Signature) := by decide
  have allocated : allAllocated.kernel = true := rfl
  have forbidden : decide (0 < 64) = true := rfl
  rw [readAppleKernel, allocated, Outcome.check_true, Outcome.bind_done]
  dsimp only
  rw [if_pos rfl, readAppleKernelImage, front, Outcome.bind_done]
  dsimp only
  rw [imageTurns, readLoop]
  dsimp only
  rw [fat, if_neg macho, if_pos (Or.inr rfl), if_neg Bool.false_ne_true, fatKernel_parses,
    Outcome.ofOption_some, Outcome.bind_done]
  dsimp only
  rw [inner, Outcome.bind_done, if_neg Bool.false_ne_true]
  obtain ⟨image, last, loop, there, fed⟩ := @fatKernel_image roomy
    ⟨.arch64, slice (fatKernel roomy) 64 kernelHeaderSize, if roomy then 1356 else 1024,
      kernelHeaderSize, some second, (64, if roomy then 1356 else 1024), none⟩
    second rfl secondFed rfl rfl rfl rfl
  obtain ⟨final, remainder⟩ := @readRemainder_done (fatKernel roomy) allAllocated last rfl
    (fatKernel_small roomy) fed
  dsimp only
  rw [forbidden, loop, Outcome.bind_done, there]
  dsimp only
  rw [remainder, Outcome.bind_done]
  exact ⟨_, rfl⟩

theorem fatKernel_selected (roomy : Bool) :
    selectedSlice (fatKernel roomy) false = some (64, if roomy then 1356 else 1024) := by
  have fat : isFat (load (fatKernel roomy) 4 0) := Or.inr (fatKernel_slice roomy).1
  rw [selectedSlice, if_pos fat, fatKernel_parses]
  rfl

theorem fatKernel_dataInside (roomy : Bool) :
    DataInside (fatKernel roomy) (64, if roomy then 1356 else 1024) ↔ roomy = true := by
  obtain ⟨_, compressed, _, size, _⟩ := fatKernel_slice roomy
  have room : machCompHeaderSize + 972 ≤ (if roomy then 1356 else 1024) ↔ roomy = true := by
    revert roomy
    decide
  rw [DataInside, size, room]
  exact ⟨fun inside => inside compressed, fun holds _ => holds⟩

theorem fatKernel_right : ∃ kernel,
    readAppleKernel blankKernel allAllocated (fatKernel true) 0 false true = .done kernel ∧
      KernelRight blankKernel (fatKernel true) 0 false kernel := by
  obtain ⟨kernel, done⟩ := fatKernel_done true
  obtain ⟨selected, chosen, right⟩ := readAppleKernel_right.2 kernel done
  rw [fatKernel_selected] at chosen
  cases chosen
  exact ⟨kernel, done, right.mpr ((fatKernel_dataInside true).mpr rfl)⟩

/-- Data behind the end of the slice are decompressed. -/
theorem fatKernel_beyond : ∃ kernel,
    readAppleKernel blankKernel allAllocated (fatKernel false) 0 false true = .done kernel ∧
      ¬ KernelRight blankKernel (fatKernel false) 0 false kernel := by
  obtain ⟨kernel, done⟩ := fatKernel_done false
  have made := kernelMade_of_done done
  have chosen := (made.2.2.2.2.2 made.2.1).1
  refine ⟨kernel, done, fun right => ?_⟩
  have inside := (holdsSlice_iff made).mp (right.holds _ chosen)
  rw [fatKernel_selected] at chosen
  rw [← Option.some.inj chosen] at inside
  cases (fatKernel_dataInside false).mp inside

end Compressed

end OpenCore.KernelSlice
