import OpenCore.PeCoffHash

/-!
Every byte of a sanitised image is hashed or zeroed, and which of the two it is can
be read off the bytes that are hashed: images with the same hashed bytes are the
same.
-/

namespace OpenCore.PeCoffCoverage

open Base ByteBuffer ByteSlices PeCoffHash List

/-- What the loader's validation says of its context: the headers lie where the DOS
header says, their type is the one of the magic, and they and their data directories
end within `SizeOfHeaders`. -/
structure Describes (ctx : Context) (file : Bytes) : Prop where
  dosHeader : dosHeaderSize ≤ ctx.exeHdrOffset → load file 4 60 = ctx.exeHdrOffset
  pe32 : ctx.imageType = .pe32 → load file 2 (ctx.exeHdrOffset + 24) = 0x10B
  pe32Plus : ctx.imageType = .pe32Plus → load file 2 (ctx.exeHdrOffset + 24) = 0x20B
  directories : ∀ offsets, directoryOffsets ctx.imageType = some offsets →
    ctx.exeHdrOffset + offsets.2 +
      dataDirectorySize * load file 4 (ctx.exeHdrOffset + offsets.1) ≤ ctx.sizeOfHeaders
  headers : ctx.sizeOfHeaders ≤ file.length
  small : file.length < u32

section Slices

variable {buffer : Bytes} {offset size : Nat}

theorem load_slice (buffer : Bytes) (offset : Nat) {width inner : Nat} (within : inner + width ≤ size) :
    load (slice buffer offset size) width inner = load buffer width (offset + inner) := by
  apply load_congr
  intro index inside
  have place : offset + (inner + index) = offset + inner + index := by omega
  simp only [byteAt, List.getD, getElem?_slice, if_pos (show inner + index < size by omega), place]

theorem slice_zeroed (inside : offset + size ≤ buffer.length) :
    slice (zeroMem buffer offset size) offset size = replicate size 0 := by
  have laid : slice (zeroMem buffer offset size) offset (replicate size (0 : UInt8)).length = _ :=
    slice_overlay_same (by rw [length_replicate]; exact inside)
  rwa [length_replicate] at laid

theorem slice_beside {target zeroed : Nat} (apart : Apart offset size target zeroed) :
    slice (zeroMem buffer target zeroed) offset size = slice buffer offset size :=
  slice_overlay_frame (by rw [length_replicate]; exact apart)

theorem length_zeroMem (buffer : Bytes) (offset size : Nat) :
    (zeroMem buffer offset size).length = buffer.length := overlay_length _ _ _

end Slices

section Layout

structure Places (ctx : Context) (file : Bytes) (secDirOffset signedFileSize : Nat) : Prop where
  dosHeader : dosHeaderSize ≤ ctx.exeHdrOffset
  directory : ∃ offsets, directoryOffsets ctx.imageType = some offsets ∧
    secDirOffset = ctx.exeHdrOffset + offsets.2 + directoryEntrySecurity * dataDirectorySize
  checksum : ctx.exeHdrOffset + appleChecksumOffset + appleChecksumSize ≤ secDirOffset
  entry : secDirOffset + dataDirectorySize ≤ signedFileSize
  signed : signedFileSize ≤ file.length

variable {ctx : Context} {file image : Bytes} {info : CertificateInfo}

theorem securityDirectory_eq {entry virtualAddress size : Nat}
    (found : peCoffGetSecurityDirectoryEntry ctx file = some (entry, virtualAddress, size)) :
    ∃ offsets, directoryOffsets ctx.imageType = some offsets ∧
      directoryEntrySecurity < load file 4 (ctx.exeHdrOffset + offsets.1) ∧
      entry = ctx.exeHdrOffset + offsets.2 + directoryEntrySecurity * dataDirectorySize ∧
      ctx.sizeOfHeaders ≤ virtualAddress ∧ virtualAddress + size ≤ file.length := by
  obtain ⟨offsets, known, found⟩ := Option.bind_eq_some_iff.mp found
  refine ⟨offsets, known, ?_⟩
  simp only at found
  split at found
  · cases found
  · next many =>
      split at found
      · cases found
      · next outside =>
          obtain ⟨entryTop, top, found⟩ := Option.bind_eq_some_iff.mp found
          obtain ⟨rfl, _⟩ := baseOverflowAdd_eq_some top
          split at found
          · cases found
          · next below =>
              simp only [Option.some.injEq, Prod.mk.injEq] at found
              obtain ⟨rfl, rfl, rfl⟩ := found
              exact ⟨not_le.mp many, rfl, not_lt.mp outside, not_lt.mp below⟩

theorem certificateInfo_eq (found : peCoffGetAppleCertificateInfo ctx file = some info) :
    ∃ entry size, peCoffGetSecurityDirectoryEntry ctx file =
        some (entry, info.signedFileSize, size) ∧ info.secDirOffset = entry % u32 := by
  obtain ⟨⟨entry, virtualAddress, size⟩, directory, found⟩ := Option.bind_eq_some_iff.mp found
  refine ⟨entry, size, ?_⟩
  simp only at found
  split at found
  · cases found
  · split at found
    · cases found
    · obtain ⟨endOffset, _, found⟩ := Option.bind_eq_some_iff.mp found
      split at found
      · cases found
      · cases found
        exact ⟨directory, rfl⟩

theorem sanitise_eq {secDirOffset signedFileSize : Nat}
    (sanitised : peCoffSanitiseAppleImage ctx secDirOffset signedFileSize file = some image) :
    dosHeaderSize ≤ ctx.exeHdrOffset ∧ image = zeroMem (zeroMem (zeroMem
        (zeroMem file dosHeaderSize (ctx.exeHdrOffset - dosHeaderSize))
        (ctx.exeHdrOffset + appleChecksumOffset) appleChecksumSize)
        secDirOffset dataDirectorySize) signedFileSize (file.length - signedFileSize) := by
  unfold peCoffSanitiseAppleImage at sanitised
  split at sanitised
  · cases sanitised
  · split at sanitised
    · cases sanitised
    · next large => exact ⟨not_lt.mp large, (Option.some.inj sanitised).symm⟩

theorem certificate_places (describes : Describes ctx file)
    (found : peCoffGetAppleCertificateInfo ctx file = some info)
    (dosHeader : dosHeaderSize ≤ ctx.exeHdrOffset) :
    Places ctx file info.secDirOffset info.signedFileSize := by
  obtain ⟨entry, size, directory, place⟩ := certificateInfo_eq found
  obtain ⟨offsets, known, many, rfl, outside, below⟩ := securityDirectory_eq directory
  have headers := describes.directories offsets known
  have inFile := describes.headers
  have small := describes.small
  have far : 120 ≤ offsets.2 := by
    cases kind : ctx.imageType <;> rw [kind] at known <;> cases known <;> simp
  simp only [dataDirectorySize, directoryEntrySecurity, u32_val] at headers many small place known
  rw [Nat.mod_eq_of_lt (by omega)] at place
  constructor
  · exact dosHeader
  · exact ⟨offsets, known, place⟩
  · simp only [appleChecksumOffset, appleChecksumSize]
    omega
  · simp only [dataDirectorySize]
    omega
  · omega

/-- What sanitising leaves: the headers it reads its places from, and zeroes in what is
not hashed. -/
structure Sanitised (ctx : Context) (file : Bytes) (secDirOffset : Nat) (image : Bytes) :
    Prop where
  length : image.length = file.length
  dosHeader : slice image 0 dosHeaderSize = slice file 0 dosHeaderSize
  stub : slice image dosHeaderSize (ctx.exeHdrOffset - dosHeaderSize) =
    replicate (ctx.exeHdrOffset - dosHeaderSize) 0
  header : slice image ctx.exeHdrOffset appleChecksumOffset =
    slice file ctx.exeHdrOffset appleChecksumOffset
  checksum : slice image (ctx.exeHdrOffset + appleChecksumOffset) appleChecksumSize =
    replicate appleChecksumSize 0
  entry : slice image secDirOffset dataDirectorySize = replicate dataDirectorySize 0

variable {secDirOffset signedFileSize : Nat}

section

variable (places : Places ctx file secDirOffset signedFileSize)
include places

theorem sanitise_leaves
    (sanitised : peCoffSanitiseAppleImage ctx secDirOffset signedFileSize file = some image) :
    Sanitised ctx file secDirOffset image := by
  obtain ⟨_, rfl⟩ := sanitise_eq sanitised
  have dosHeader := places.dosHeader
  have checksum := places.checksum
  have entry := places.entry
  have signed := places.signed
  have sizes : dosHeaderSize = 64 ∧ appleChecksumOffset = 88 ∧ appleChecksumSize = 4 ∧
      dataDirectorySize = 8 := by decide
  clear places
  constructor
  · simp only [length_zeroMem]
  · rw [slice_beside, slice_beside, slice_beside, slice_beside] <;> unfold Apart <;> omega
  · rw [slice_beside, slice_beside, slice_beside, slice_zeroed]
    · omega
    all_goals
      unfold Apart
      omega
  · rw [slice_beside, slice_beside, slice_beside, slice_beside] <;> unfold Apart <;> omega
  · rw [slice_beside, slice_beside, slice_zeroed]
    · rw [length_zeroMem]
      omega
    all_goals
      unfold Apart
      omega
  · rw [slice_beside, slice_zeroed]
    · simp only [length_zeroMem]
      omega
    · unfold Apart
      omega

theorem hash_updates (small : file.length < u32) :
    peCoffHashAppleImage ctx secDirOffset signedFileSize image =
      [slice image 0 dosHeaderSize, slice image ctx.exeHdrOffset appleChecksumOffset,
        slice image (ctx.exeHdrOffset + appleChecksumOffset + appleChecksumSize)
          (secDirOffset - (ctx.exeHdrOffset + appleChecksumOffset + appleChecksumSize)),
        slice image (secDirOffset + dataDirectorySize)
          (signedFileSize - (secDirOffset + dataDirectorySize))] := by
  obtain ⟨_, _, checksum, entry, signed⟩ := places
  have differs : ∀ low high : Nat, low ≤ high → high < u32 →
      wrapSub u32 high (low % u32) = high - low := by
    intro low high below top
    simp only [wrapSub, u32_val] at top ⊢
    omega
  have header := differs _ secDirOffset checksum (by omega)
  have rest : ctx.exeHdrOffset + appleChecksumOffset + appleChecksumSize +
      (secDirOffset - (ctx.exeHdrOffset + appleChecksumOffset + appleChecksumSize)) =
        secDirOffset := by omega
  simp only [peCoffHashAppleImage, header, rest, differs _ signedFileSize entry (by omega)]

theorem image_parts (sanitised : Sanitised ctx file secDirOffset image) :
    image.take signedFileSize = slice image 0 dosHeaderSize ++
      replicate (ctx.exeHdrOffset - dosHeaderSize) 0 ++
      slice image ctx.exeHdrOffset appleChecksumOffset ++ replicate appleChecksumSize 0 ++
      slice image (ctx.exeHdrOffset + appleChecksumOffset + appleChecksumSize)
        (secDirOffset - (ctx.exeHdrOffset + appleChecksumOffset + appleChecksumSize)) ++
      replicate dataDirectorySize 0 ++ slice image (secDirOffset + dataDirectorySize)
        (signedFileSize - (secDirOffset + dataDirectorySize)) := by
  obtain ⟨dosHeader, _, checksum, entry, _⟩ := places
  have cut : ∀ low high, low ≤ high → slice image 0 high =
      slice image 0 low ++ slice image low (high - low) := by
    intro low high below
    have whole : high = low + (high - low) := by omega
    have split := slice_add image 0 low (high - low)
    rwa [← whole, zero_add] at split
  have stretch : ∀ low size : Nat, low + size - low = size := fun low size => Nat.add_sub_cancel_left low size
  have start : image.take signedFileSize = slice image 0 signedFileSize := rfl
  rw [start, cut (secDirOffset + dataDirectorySize) signedFileSize entry,
    cut secDirOffset _ (Nat.le_add_right _ _), stretch, sanitised.entry,
    cut (ctx.exeHdrOffset + appleChecksumOffset + appleChecksumSize) secDirOffset checksum,
    cut (ctx.exeHdrOffset + appleChecksumOffset) _ (Nat.le_add_right _ _), stretch,
    sanitised.checksum, cut ctx.exeHdrOffset _ (Nat.le_add_right _ _), stretch,
    cut dosHeaderSize _ dosHeader, sanitised.stub]

end

end Layout

section TwoImages

variable {κ : Type}
variable {env : Externals κ} {hashed : Hashed}

theorem hashed_eq {ctx : Context} {file : Bytes}
    (hashes : (internalPeCoffVerifyAppleSignatureFromContext env ctx file).2 = some hashed) :
    ∃ info, peCoffGetAppleCertificateInfo ctx file = some info ∧
      peCoffSanitiseAppleImage ctx info.secDirOffset info.signedFileSize file =
        some hashed.image ∧ hashed.imageSize = info.signedFileSize ∧ hashed.updates =
        peCoffHashAppleImage ctx info.secDirOffset info.signedFileSize hashed.image := by
  unfold internalPeCoffVerifyAppleSignatureFromContext at hashes
  split at hashes
  · cases hashes
  · next info found =>
      split at hashes
      · cases hashes
      · split at hashes
        · cases hashes
        · next image sanitised =>
            have same : ⟨image, info.signedFileSize, peCoffHashAppleImage ctx info.secDirOffset
                info.signedFileSize image⟩ = hashed := by
              simp only at hashes
              split at hashes <;> exact Option.some.inj hashes
            subst same
            exact ⟨info, found, sanitised, rfl, rfl⟩

/-- What the hashed bytes of an image are: the DOS header, the headers up to the
checksum, those up to the security directory, and the rest. -/
structure Stretches (ctx : Context) (file : Bytes) (hashed : Hashed) : Prop where
  cut : ∃ secDirOffset, Places ctx file secDirOffset hashed.imageSize ∧
    Sanitised ctx file secDirOffset hashed.image ∧
    hashed.updates = peCoffHashAppleImage ctx secDirOffset hashed.imageSize hashed.image

theorem stretches {ctx : Context} {file : Bytes} (describes : Describes ctx file)
    (hashes : (internalPeCoffVerifyAppleSignatureFromContext env ctx file).2 =
      some hashed) : Stretches ctx file hashed := by
  obtain ⟨info, found, sanitised, size, updates⟩ := hashed_eq hashes
  have places := certificate_places describes found (sanitise_eq sanitised).1
  refine ⟨info.secDirOffset, ?_, sanitise_leaves places sanitised, ?_⟩
  · rw [size]
    exact places
  · rw [size]
    exact updates

theorem imageType_eq {ctx other : Context} {file second : Bytes}
    (describes : Describes ctx file) (described : Describes other second)
    (known : (directoryOffsets ctx.imageType).isSome)
    (told : (directoryOffsets other.imageType).isSome)
    (magic : load file 2 (ctx.exeHdrOffset + 24) = load second 2 (other.exeHdrOffset + 24)) :
    ctx.imageType = other.imageType := by
  have kinds : ∀ type, (directoryOffsets type).isSome → type = .pe32 ∨ type = .pe32Plus := by
    intro type known
    cases type <;> simp_all [directoryOffsets]
  rcases kinds _ known with kind | kind <;> rcases kinds _ told with type | type
  · rw [kind, type]
  · rw [describes.pe32 kind, described.pe32Plus type] at magic
    cases magic
  · rw [describes.pe32Plus kind, described.pe32 type] at magic
    cases magic
  · rw [kind, type]

/-- Two images with the same hashed bytes are the same up to their size. -/
theorem same_hashed_same_image (env other : Externals κ) (context₁ context₂ : Context)
    (file₁ file₂ : Bytes) (describes₁ : Describes context₁ file₁)
    (describes₂ : Describes context₂ file₂) (hashed₁ hashed₂ : Hashed)
    (hashes₁ : (internalPeCoffVerifyAppleSignatureFromContext env context₁ file₁).2 =
      some hashed₁)
    (hashes₂ : (internalPeCoffVerifyAppleSignatureFromContext other context₂ file₂).2 =
      some hashed₂)
    (same : hashed₁.updates.flatten = hashed₂.updates.flatten) :
    hashed₁.imageSize = hashed₂.imageSize ∧
      hashed₁.image.take hashed₁.imageSize = hashed₂.image.take hashed₂.imageSize := by
  obtain ⟨secDir₁, places₁, sanitised₁, updates₁⟩ := (stretches describes₁ hashes₁).cut
  obtain ⟨secDir₂, places₂, sanitised₂, updates₂⟩ := (stretches describes₂ hashes₂).cut
  rw [updates₁, updates₂, hash_updates places₁ describes₁.small,
    hash_updates places₂ describes₂.small] at same
  simp only [flatten_cons, flatten_nil, append_nil] at same
  have sizes : dosHeaderSize = 64 ∧ appleChecksumOffset = 88 ∧ appleChecksumSize = 4 ∧
      dataDirectorySize = 8 := by decide
  have bounds : ∀ {ctx file secDir signed}, Places ctx file secDir signed →
      64 ≤ ctx.exeHdrOffset ∧ ctx.exeHdrOffset + 92 ≤ secDir ∧ secDir + 8 ≤ signed ∧
        signed ≤ file.length := fun places =>
    ⟨places.dosHeader, places.checksum, places.entry, places.signed⟩
  have bounds₁ := bounds places₁
  have bounds₂ := bounds places₂
  have length₁ := sanitised₁.length
  have length₂ := sanitised₂.length
  -- the DOS headers give the place of the headers
  obtain ⟨dosHeader, same⟩ := append_inj same (by
    rw [length_slice (by omega), length_slice (by omega)])
  have exeHdr : context₁.exeHdrOffset = context₂.exeHdrOffset := by
    have inside : 60 + 4 ≤ dosHeaderSize := by decide
    have from₁ := load_slice file₁ 0 inside
    have from₂ := load_slice file₂ 0 inside
    rw [← sanitised₁.dosHeader, dosHeader, sanitised₂.dosHeader, from₂] at from₁
    rw [← describes₁.dosHeader places₁.dosHeader, ← describes₂.dosHeader places₂.dosHeader]
    simpa using from₁.symm
  -- the headers give the type, and with it the place of the security directory
  obtain ⟨header, same⟩ := append_inj same (by
    rw [length_slice (by omega), length_slice (by omega)])
  obtain ⟨offsets₁, known₁, entry₁⟩ := places₁.directory
  obtain ⟨offsets₂, known₂, entry₂⟩ := places₂.directory
  have type : context₁.imageType = context₂.imageType := by
    apply imageType_eq describes₁ describes₂ (by rw [known₁]; rfl) (by rw [known₂]; rfl)
    have inside : 24 + 2 ≤ appleChecksumOffset := by decide
    have from₁ := load_slice file₁ context₁.exeHdrOffset inside
    have from₂ := load_slice file₂ context₂.exeHdrOffset inside
    rw [← sanitised₁.header, header, sanitised₂.header, from₂] at from₁
    exact from₁.symm
  have secDir : secDir₁ = secDir₂ := by
    rw [type, known₂, Option.some.injEq] at known₁
    rw [entry₁, entry₂, exeHdr, known₁]
  subst secDir
  obtain ⟨directory, rest⟩ := append_inj same (by
    rw [length_slice (by omega), length_slice (by omega), exeHdr])
  have ends : hashed₁.imageSize = hashed₂.imageSize := by
    have lengths := congrArg List.length rest
    rw [length_slice (by omega), length_slice (by omega)] at lengths
    omega
  refine ⟨ends, ?_⟩
  rw [image_parts places₁ sanitised₁, image_parts places₂ sanitised₂, dosHeader, header, directory,
    rest, exeHdr]

def sampleContext : Context := { imageType := .pe32, exeHdrOffset := 64, sizeOfHeaders := 224 }

def sampleFile (checksum : Nat) : Bytes :=
  [(4, 60, 64), (2, 88, 0x10B), (4, 152, checksum), (4, 180, 5), (4, 216, 776), (4, 220, 8),
    (4, 224, 552), (2, 230, 0x0EF1), (4, 776, 224), (4, 780, 552)].foldl
    (fun file field => store file field.1 field.2.1 field.2.2) (replicate 784 0)

def sampleExternals : Externals Unit where
  sha256 := fun _ => []
  pkDataBase := [([], ())]
  rsaVerify := fun _ _ _ => true
  appleEfiCertificateGuid := replicate 16 0
  rsa2048Sha256Guid := replicate 16 0

def sampleHashed : Hashed where
  image := store (store (sampleFile 0) 8 216 0) 8 776 0
  imageSize := 776
  updates := peCoffHashAppleImage sampleContext 216 776 (store (sampleFile 0) 8 216 0)

theorem sample_describes (checksum : Nat) (listed : checksum ∈ [1, 2]) :
    Describes sampleContext (sampleFile checksum) := by
  have fields : ∀ checksum ∈ [1, 2], load (sampleFile checksum) 4 60 = 64 ∧
      load (sampleFile checksum) 2 88 = 0x10B ∧ load (sampleFile checksum) 4 180 = 5 ∧
        (sampleFile checksum).length = 784 := by decide +kernel
  obtain ⟨dosHeader, magic, directories, length⟩ := fields checksum listed
  constructor
  · exact fun _ => dosHeader
  · exact fun _ => magic
  · intro type
    cases type
  · intro offsets known
    cases known
    simp only [sampleContext, directories]
    decide
  · rw [length]
    decide
  · rw [length]
    decide

theorem sample_hashes : ∀ checksum ∈ [1, 2],
    (internalPeCoffVerifyAppleSignatureFromContext sampleExternals sampleContext
      (sampleFile checksum)).2 = some sampleHashed := by decide +kernel

theorem same_hashed_same_image_sample :
    sampleHashed.imageSize = sampleHashed.imageSize ∧
      sampleHashed.image.take sampleHashed.imageSize =
        sampleHashed.image.take sampleHashed.imageSize :=
  same_hashed_same_image sampleExternals sampleExternals sampleContext sampleContext
    (sampleFile 1) (sampleFile 2) (sample_describes 1 (by simp)) (sample_describes 2 (by simp))
    sampleHashed sampleHashed (sample_hashes 1 (by simp)) (sample_hashes 2 (by simp)) rfl

end TwoImages

end OpenCore.PeCoffCoverage
