import OpenCore.DiskImage

/-!
What the chunks of a chunklist vouch for. Two images that are accepted with one
chunklist agree as far as its chunks go, and if the chunks go to the end of both, every
sector of them is read alike. The chunks need not go so far, and what lies behind them
may be anything.
-/

namespace OpenCore.DiskImageCoverage

open Base ByteBuffer ByteSlices RamDisk XmlParse DiskImage List

section Chunks

def totalLength (chunklist : List ListedChunk) : Nat := (chunklist.map ListedChunk.length).sum

def Covered (chunklist : List ListedChunk) (file : Bytes) : Prop :=
  file.length ≤ totalLength chunklist

instance (chunklist : List ListedChunk) (file : Bytes) : Decidable (Covered chunklist file) :=
  inferInstanceAs (Decidable (_ ≤ _))

variable {sha256 : Bytes → Bytes} {first second : ExtentTable}

theorem readWhole_some {contents data : Bytes} {offset size : Nat}
    (read : readWhole contents offset size = some data) :
    data = slice contents offset size ∧ offset + size ≤ contents.length := by
  unfold readWhole at read
  split at read
  · next inside => exact ⟨(Option.some.inj read).symm, inside.2⟩
  · cases read

theorem verifyChunks_agree {chunklist : List ListedChunk} {offset : Nat}
    (injective : Function.Injective sha256) (firstSmall : first.flatten.length < u32)
    (firstVerified : verifyChunks sha256 first chunklist offset = true)
    (secondVerified : verifyChunks sha256 second chunklist offset = true) :
    slice first.flatten offset (totalLength chunklist) =
      slice second.flatten offset (totalLength chunklist) := by
  induction chunklist generalizing offset with
  | nil => rfl
  | cons chunk rest ih =>
    rw [verifyChunks, ocAppleRamDiskRead_eq] at firstVerified secondVerified
    split at firstVerified
    · cases firstVerified
    · next data read =>
        split at secondVerified
        · cases secondVerified
        · next data' read' =>
            split at firstVerified
            · cases firstVerified
            · next same =>
                split at secondVerified
                · cases secondVerified
                · next same' =>
                    obtain ⟨rfl, inside⟩ := readWhole_some read
                    obtain ⟨rfl, _⟩ := readWhole_some read'
                    have hashes := (not_not.mp same).trans (not_not.mp same').symm
                    have data := injective hashes
                    have place : (offset + chunk.length) % u64 = offset + chunk.length :=
                      Nat.mod_eq_of_lt (by simp only [u32_val, u64_val] at *; omega)
                    rw [place] at firstVerified secondVerified
                    have later := ih firstVerified secondVerified
                    have total : totalLength (chunk :: rest) = chunk.length + totalLength rest :=
                      sum_cons
                    rw [total, slice_add, slice_add, data, later]

end Chunks

section Files

variable {env : Externals} {behind : Nat → Bytes} {map : MemoryMap} {file : File}
  {allocatePool : Nat → Bool} {context : Context}

theorem initialize_loaded
    (loaded : ocAppleDiskImageInitializeFromFile env behind allocatePool map file = some context) :
    file.contents.length < u32 ∧ context.extentTable.flatten = file.contents ∧
      ocAppleDiskImageInitializeContext env behind context.extentTable file.contents.length =
        some context := by
  obtain ⟨fileSize, size, loaded⟩ := Option.bind_eq_some_iff.mp loaded
  have known : file.contents.length < u32 ∧ fileSize = file.contents.length := by
    unfold ocGetFileSize at size
    split at size
    · next small => exact ⟨small, (Option.some.inj size).symm⟩
    · cases size
  obtain ⟨small, rfl⟩ := known
  obtain ⟨extents, allocated, loaded⟩ := Option.bind_eq_some_iff.mp loaded
  obtain ⟨table, filled, loaded⟩ := Option.bind_eq_some_iff.mp loaded
  have whole := ocAppleRamDiskLoadFile_flatten filled (ocAppleRamDiskAllocate_sum allocated)
  have here : context.extentTable = table := by
    obtain ⟨trailer, _, initialized⟩ := Option.bind_eq_some_iff.mp loaded
    obtain ⟨plist, _, initialized⟩ := Option.bind_eq_some_iff.mp initialized
    obtain ⟨blocks, _, rfl⟩ := Option.map_eq_some_iff.mp initialized
    rfl
  rw [here]
  exact ⟨small, whole, loaded⟩

theorem covered_files_same {other : File} {otherBehind : Nat → Bytes} {otherMap : MemoryMap}
    {otherPool : Nat → Bool} {otherContext : Context} {chunklist : List ListedChunk}
    (injective : Function.Injective env.sha256)
    (loaded : ocAppleDiskImageInitializeFromFile env behind allocatePool map file = some context)
    (otherLoaded : ocAppleDiskImageInitializeFromFile env otherBehind otherPool otherMap other =
      some otherContext)
    (verified : ocAppleDiskImageVerifyData env context chunklist = true)
    (otherVerified : ocAppleDiskImageVerifyData env otherContext chunklist = true)
    (covered : Covered chunklist file.contents) (otherCovered : Covered chunklist other.contents) :
    file.contents = other.contents := by
  obtain ⟨small, whole, _⟩ := initialize_loaded loaded
  obtain ⟨_, otherWhole, _⟩ := initialize_loaded otherLoaded
  have agree := verifyChunks_agree injective (by rw [whole]; exact small) verified otherVerified
  rw [whole, otherWhole, slice, slice, drop_zero, drop_zero,
    take_of_length_le covered, take_of_length_le otherCovered] at agree
  exact agree

end Files

section Blocks

variable {data rest : Bytes}

theorem load_front {width offset : Nat} (inside : offset + width ≤ data.length) :
    load (data ++ rest) width offset = load data width offset := by
  apply load_congr
  intro index within
  rw [byteAt, byteAt, List.getD, List.getD, getElem?_append_left (by omega)]

theorem mapM_congr {α β : Type} {first second : α → Option β} {items : List α}
    (same : ∀ item ∈ items, first item = second item) : items.mapM first = items.mapM second := by
  induction items with
  | nil => rfl
  | cons item items ih =>
    rw [mapM_cons, mapM_cons, same item mem_cons_self,
      ih fun other member => same other (mem_cons_of_mem _ member)]

theorem swapChunk_front {blockSectorTop maxOffset index : Nat}
    (inside : blockDataSize + chunkSize * (index + 1) ≤ data.length) :
    swapChunk (data ++ rest) blockSectorTop maxOffset index =
      swapChunk data blockSectorTop maxOffset index := by
  rw [blockDataSize, chunkSize] at inside
  simp only [swapChunk, blockDataSize, chunkSize]
  rw [load_front (by omega), load_front (by omega), load_front (by omega), load_front (by omega),
    load_front (by omega)]

theorem internalSwapBlockData_front {sectorCount dataForkOffset dataForkSize : Nat}
    (full : blockDataSize ≤ data.length) (small : data.length < u32) :
    internalSwapBlockData (data ++ rest) data.length sectorCount dataForkOffset dataForkSize =
      internalSwapBlockData data data.length sectorCount dataForkOffset dataForkSize := by
  have fields : 204 ≤ data.length := full
  simp only [internalSwapBlockData]
  rw [load_front (by omega), load_front (by omega), load_front (by omega), load_front (by omega),
    load_front (by omega)]
  generalize AddressSpace.swapBytes32 (load data 4 200) = count
  cases product : baseOverflowMul u32 count chunkSize with
  | none => rw [Option.bind_none, Option.bind_none]
  | some chunksSize =>
    obtain ⟨same, _⟩ := baseOverflowMul_eq_some product
    rw [Option.bind_some, Option.bind_some]
    by_cases large : wrapSub u64 data.length blockDataSize < chunksSize
    · rw [if_pos large, if_pos large]
    · rw [if_neg large, if_neg large]
      have room := wrapSub_of_le full (Nat.lt_trans small (by decide : u32 < u64))
      have chunks : ∀ blockSectorTop, (List.range count).mapM
          (swapChunk (data ++ rest) blockSectorTop (dataForkOffset + dataForkSize)) =
            (List.range count).mapM
              (swapChunk data blockSectorTop (dataForkOffset + dataForkSize)) := by
        intro blockSectorTop
        apply mapM_congr
        intro index member
        have below := mem_range.mp member
        apply swapChunk_front
        have entries : chunkSize * (index + 1) ≤ count * chunkSize := by
          rw [mul_comm]
          exact Nat.mul_le_mul_right chunkSize below
        omega
      simp only [chunks]

end Blocks

section Plists

variable {env : Externals} {behind otherBehind : Nat → Bytes}
variable {sectorCount dataForkOffset dataForkSize index : Nat}

/-- The data of a block, where they are found and decoded, have room for its fields. -/
def BlockDecoded (env : Externals) (dict : Tree) : Prop :=
  ∀ value data, findPlistDictChild (Plist.ascii "Data") (Tree.children dict) = some value →
    plistDataValue env value = some data → blockDataSize ≤ data.length

theorem plistDataValue_small {value : Tree} {data : Bytes}
    (decoded : plistDataValue env value = some data) : data.length < u32 := by
  unfold plistDataValue at decoded
  split at decoded
  · split at decoded
    · cases decoded
    · split at decoded
      · cases decoded
      · obtain ⟨bytes, _, fits⟩ := Option.bind_eq_some_iff.mp decoded
        split at fits
        · next small =>
            cases fits
            exact small
        · cases fits
  · cases decoded

theorem parseBlock_decoded {dict : Tree} (decoded : BlockDecoded env dict) :
    parseBlock env behind sectorCount dataForkOffset dataForkSize index dict =
      parseBlock env otherBehind sectorCount dataForkOffset dataForkSize index dict := by
  rw [parseBlock, parseBlock]
  cases found : findPlistDictChild (Plist.ascii "Data") (Tree.children dict) with
  | none => rw [Option.bind_none, Option.bind_none]
  | some value =>
    rw [Option.bind_some, Option.bind_some]
    cases text : plistDataValue env value with
    | none => rw [Option.bind_none, Option.bind_none]
    | some data =>
      have full := decoded value data found text
      have small := plistDataValue_small text
      rw [Option.bind_some, Option.bind_some, internalSwapBlockData_front full small,
        internalSwapBlockData_front full small]

theorem parseBlocks_decoded {dicts : List Tree} (decoded : ∀ dict ∈ dicts, BlockDecoded env dict) :
    parseBlocks env behind sectorCount dataForkOffset dataForkSize index dicts =
      parseBlocks env otherBehind sectorCount dataForkOffset dataForkSize index dicts := by
  induction dicts generalizing index with
  | nil => rfl
  | cons dict rest ih =>
    rw [parseBlocks, parseBlocks,
      @parseBlock_decoded _ behind otherBehind _ _ _ _ _ (decoded dict mem_cons_self),
      ih fun other member => decoded other (mem_cons_of_mem dict member)]

def imageDicts (file : Bytes) : Option (List Tree) :=
  (readTrailer [file] file.length).bind fun trailer =>
    (ocAppleRamDiskRead [file] trailer.xmlOffset trailer.xmlLength).bind blockDicts

def BlocksDecoded (env : Externals) (file : Bytes) : Prop :=
  ∀ dicts ∈ imageDicts file, ∀ dict ∈ dicts, BlockDecoded env dict

end Plists

section Reading

variable {env : Externals} {behind otherBehind : Nat → Bytes} {file : Bytes}
  {context other : Context}
variable {turns lba remaining : Nat} {block : BlockData} {chunk : Chunk}

theorem read_same {first second : ExtentTable} (same : first.flatten = second.flatten)
    (offset size : Nat) : ocAppleRamDiskRead first offset size = ocAppleRamDiskRead second offset size := by
  rw [ocAppleRamDiskRead_eq, ocAppleRamDiskRead_eq, same]

theorem readTrailer_same {first second : ExtentTable} (same : first.flatten = second.flatten)
    (fileSize : Nat) : readTrailer first fileSize = readTrailer second fileSize := by
  rw [readTrailer, readTrailer]
  simp only [read_same same]

theorem initialize_same {first second : ExtentTable} (same : first.flatten = file)
    (otherSame : second.flatten = file) (decoded : BlocksDecoded env file)
    (initialized : ocAppleDiskImageInitializeContext env behind first file.length = some context)
    (otherInitialized : ocAppleDiskImageInitializeContext env otherBehind second file.length =
      some other) :
    context.blocks = other.blocks ∧ context.sectorCount = other.sectorCount := by
  have whole : [file].flatten = file := append_nil file
  have joint := same.trans whole.symm
  have otherJoint := otherSame.trans whole.symm
  obtain ⟨trailer, found, initialized⟩ := Option.bind_eq_some_iff.mp initialized
  obtain ⟨otherTrailer, otherFound, otherInitialized⟩ := Option.bind_eq_some_iff.mp otherInitialized
  rw [readTrailer_same joint] at found
  rw [readTrailer_same otherJoint, found] at otherFound
  cases otherFound
  obtain ⟨plist, read, initialized⟩ := Option.bind_eq_some_iff.mp initialized
  obtain ⟨otherPlist, otherRead, otherInitialized⟩ := Option.bind_eq_some_iff.mp otherInitialized
  rw [read_same joint] at read
  rw [read_same otherJoint, read] at otherRead
  cases otherRead
  obtain ⟨blocks, parsed, rfl⟩ := Option.map_eq_some_iff.mp initialized
  obtain ⟨otherBlocks, otherParsed, rfl⟩ := Option.map_eq_some_iff.mp otherInitialized
  obtain ⟨dicts, listed, parsed⟩ := Option.bind_eq_some_iff.mp parsed
  rw [internalParsePlist, listed, Option.bind_some] at otherParsed
  have member : dicts ∈ imageDicts file := by
    rw [imageDicts, found, Option.bind_some, read, Option.bind_some]
    exact listed
  refine ⟨?_, rfl⟩
  split at parsed
  · cases parsed
  · next some =>
      rw [if_neg some] at otherParsed
      obtain ⟨size, fits, parsed⟩ := Option.bind_eq_some_iff.mp parsed
      rw [fits, Option.bind_some,
        @parseBlocks_decoded env otherBehind behind _ _ _ _ _ (decoded dicts member)]
        at otherParsed
      exact Option.some.inj (parsed.symm.trans otherParsed)

theorem readSectors_same (same : context.extentTable.flatten = other.extentTable.flatten)
    (blocks : context.blocks = other.blocks) :
    readSectors env context turns lba remaining = readSectors env other turns lba remaining := by
  induction turns generalizing lba remaining with
  | zero =>
    cases remaining with
    | zero => rw [readSectors, readSectors]
    | succ remaining => rw [readSectors, readSectors]
  | succ turns ih =>
    cases remaining with
    | zero => rw [readSectors, readSectors]
    | succ remaining =>
      rw [readSectors, readSectors]
      simp only [readChunk, read_same same, blocks, ih]

theorem chunkHolds_inside {lba : Nat} (holds : chunkHolds lba block chunk = true) :
    lba - sectorStart block chunk < chunk.sectorCount := by
  obtain ⟨behind, before⟩ := Bool.and_eq_true_iff.mp holds
  have start := of_decide_eq_true behind
  have ends := of_decide_eq_true before
  have below : sectorStart block chunk < u64 := Nat.mod_lt _ (by decide)
  have bound : (sectorStart block chunk + chunk.sectorCount) % u64 ≤
      sectorStart block chunk + chunk.sectorCount := Nat.mod_le _ _
  omega

theorem internalGetBlockChunk_holds {lba : Nat} {blocks : List BlockData}
    (found : internalGetBlockChunk lba blocks = some (block, chunk)) :
    chunkHolds lba block chunk = true := by
  induction blocks with
  | nil => cases found
  | cons first rest ih =>
    rw [internalGetBlockChunk] at found
    split at found
    · split at found
      · next holds =>
          cases found
          exact find?_some holds
      · exact ih found
    · exact ih found

theorem prepend_spins {front : Bytes} {result : ReadResult} (spins : result.prepend front = .spins) :
    result = .spins := by
  cases result with
  | read data => cases spins
  | failed => cases spins
  | spins => rfl

theorem readSectors_returns (enough : remaining ≤ turns) :
    readSectors env context turns lba remaining ≠ .spins := by
  induction turns generalizing lba remaining with
  | zero =>
    have none : remaining = 0 := by omega
    rw [none, readSectors]
    intro spins
    cases spins
  | succ turns ih =>
    cases remaining with
    | zero =>
      rw [readSectors]
      intro spins
      cases spins
    | succ remaining =>
      rw [readSectors]
      split
      · intro spins
        cases spins
      · next block chunk found =>
          simp only
          split
          · next chunkOffset totalLength before total =>
              split
              · intro spins
                cases spins
              · next data read =>
                  obtain ⟨rfl, _⟩ := baseOverflowMul_eq_some before
                  obtain ⟨rfl, _⟩ := baseOverflowMul_eq_some total
                  have inside := chunkHolds_inside (internalGetBlockChunk_holds found)
                  intro spins
                  apply ih _ (prepend_spins spins)
                  rw [appleDiskImageSectorSize]
                  omega
          · intro spins
            cases spins

/-- Two images that the chunks of one chunklist cover are read alike, every sector. -/
theorem verified_images_read_alike {file otherFile : File} {allocatePool otherPool : Nat → Bool}
    {map otherMap : MemoryMap} (chunklist : List ListedChunk) (injective : Function.Injective env.sha256)
    (loaded : ocAppleDiskImageInitializeFromFile env behind allocatePool map file = some context)
    (otherLoaded : ocAppleDiskImageInitializeFromFile env otherBehind otherPool otherMap
      otherFile = some other)
    (verified : ocAppleDiskImageVerifyData env context chunklist = true)
    (otherVerified : ocAppleDiskImageVerifyData env other chunklist = true)
    (covered : Covered chunklist file.contents)
    (otherCovered : Covered chunklist otherFile.contents)
    (decoded : BlocksDecoded env file.contents) :
    context.sectorCount = other.sectorCount ∧ ∀ lba bufferSize,
      ocAppleDiskImageRead env context lba bufferSize =
          ocAppleDiskImageRead env other lba bufferSize ∧
        ocAppleDiskImageRead env context lba bufferSize ≠ .spins := by
  have same := covered_files_same injective loaded otherLoaded verified otherVerified covered
    otherCovered
  obtain ⟨_, whole, initialized⟩ := initialize_loaded loaded
  obtain ⟨_, otherWhole, otherInitialized⟩ := initialize_loaded otherLoaded
  rw [← same] at otherWhole otherInitialized
  obtain ⟨blocks, sectors⟩ := initialize_same whole otherWhole decoded initialized otherInitialized
  exact ⟨sectors, fun lba bufferSize =>
    ⟨readSectors_same (whole.trans otherWhole.symm) blocks, readSectors_returns (le_refl _)⟩⟩

end Reading

section Samples

def sampleBlock : Bytes :=
  [0x6D, 0x69, 0x73, 0x68, 0, 0, 0, 1] ++ replicate 15 0 ++ [1] ++ replicate 179 0 ++
    [1, 0, 0, 0, 1] ++ replicate 19 0 ++ [1, 0, 0, 0, 0, 0, 0, 0x01, 0xD0, 0, 0, 0, 0, 0, 0, 2, 0]

def sampleText : Bytes :=
  Plist.ascii "bWlzaAAAAAE" ++ replicate 20 65 ++ [66] ++ replicate 239 65 ++ [66] ++
    replicate 5 65 ++ [81] ++ replicate 25 65 ++ [66] ++ replicate 9 65 ++ [100] ++
      replicate 9 65 ++ Plist.ascii "CAA=="

def samplePlist : Bytes :=
  Plist.ascii "<plist><dict><key>resource-fork</key><dict><key>blkx</key><array><dict><key>Data</key><data>" ++
    sampleText ++ Plist.ascii "</data></dict></array></dict></dict></plist>"

def sampleTrailer : Bytes :=
  Plist.ascii "koly" ++ [0, 0, 0, 4, 0, 0, 2, 0] ++ replicate 18 0 ++ [1, 0xD0, 0, 0, 0, 0, 0, 0, 2, 0] ++
    replicate 19 0 ++ [1, 0, 0, 0, 1] ++ replicate 166 0 ++ [1, 0xD0] ++
      replicate 267 0 ++ [1] ++ replicate 12 0

def sampleImage (byte : UInt8) : Bytes :=
  samplePlist ++ replicate 512 byte ++ sampleTrailer

def sampleExternals : Externals where
  sha256 := id
  base64Decode := fun text => if text = sampleText then some sampleBlock else none
  decompressZlib := fun _ _ => (0, [])

def sampleMap : MemoryMap := { high := [2], remaining := [], anywhere := [] }

def sampleContext (byte : UInt8) : Context where
  extentTable := [sampleImage byte]
  blocks := [⟨0, 1, [⟨1, 0, 1, 464, 512⟩]⟩]
  sectorCount := 1

def sampleBehind (other : Bool) : Nat → Bytes := fun _ => if other then [1] else []

theorem samplePlist_length : samplePlist.length = 464 := by
  rw [samplePlist, sampleText]
  repeat rw [Plist.ascii_ofList]
  simp only [length_append, length_map, length_replicate, length_cons, length_nil]

theorem sampleImage_length (byte : UInt8) : (sampleImage byte).length = 1488 := by
  rw [sampleImage, sampleTrailer, Plist.ascii_ofList]
  simp only [length_append, samplePlist_length, length_map, length_replicate, length_cons, length_nil]

theorem sampleImage_plist (byte : UInt8) : slice (sampleImage byte) 0 464 = samplePlist := by
  rw [slice, drop_zero, sampleImage, append_assoc, take_left' samplePlist_length]

theorem sampleImage_trailer (byte : UInt8) : slice (sampleImage byte) 976 512 = sampleTrailer := by
  have length := sampleImage_length byte
  rw [sampleImage, length_append] at length
  have front : (samplePlist ++ replicate 512 byte).length = 976 := by
    rw [length_append, samplePlist_length, length_replicate]
  rw [slice, sampleImage, drop_left' front, take_of_length_le (by omega)]

theorem sampleImage_read (byte : UInt8) {offset size : Nat} (starts : offset < 1488)
    (ends : offset + size ≤ 1488) :
    ocAppleRamDiskRead [sampleImage byte] offset size = some (slice (sampleImage byte) offset size) := by
  rw [ocAppleRamDiskRead_eq, flatten_singleton, readWhole, sampleImage_length, if_pos ⟨starts, ends⟩]

theorem loadFile_single {image : Bytes} (length : image.length = 1488) :
    ocAppleRamDiskLoadFile (fun _ => true) (.reliable image) [1488] 1488 = some [image] := by
  simp [ocAppleRamDiskLoadFile, loadExtents, loadPortions, base4MB, File.reliable, File.readAt, slice,
    length, take_of_length_le length.le]

theorem sample_initialized (other : Bool) (byte : UInt8) :
    ocAppleDiskImageInitializeFromFile sampleExternals (sampleBehind other) (fun _ => true)
        sampleMap (.reliable (sampleImage byte)) = some (sampleContext byte) := by
  have size : ocGetFileSize (sampleImage byte) = some 1488 := by
    rw [ocGetFileSize, sampleImage_length]
    rfl
  have allocated : ocAppleRamDiskAllocate sampleMap 1488 = some [1488] := by decide
  have loaded := loadFile_single (sampleImage_length byte)
  have last : ocAppleRamDiskRead [sampleImage byte] (1488 - trailerSize) trailerSize =
      some sampleTrailer := by
    rw [← sampleImage_trailer byte]
    exact sampleImage_read byte (by decide) (by decide)
  have trailer : readTrailer [sampleImage byte] 1488 = some ⟨464, 512, 0, 464, 1⟩ := by
    rw [readTrailer, if_neg (by decide)]
    simp only [last, Option.bind_some]
    rw [sampleTrailer, Plist.ascii_ofList]
    decide +kernel
  have plist : ocAppleRamDiskRead [sampleImage byte] 0 464 = some samplePlist := by
    rw [← sampleImage_plist byte]
    exact sampleImage_read byte (by decide) (by decide)
  have blocks : internalParsePlist sampleExternals (sampleBehind other) samplePlist 1 464 512 =
      some (sampleContext 0).blocks := by
    unfold samplePlist sampleExternals sampleText
    repeat rw [Plist.ascii_ofList]
    cases other <;> decide +kernel
  rw [File.reliable] at loaded
  rw [ocAppleDiskImageInitializeFromFile, File.reliable, size, Option.bind_some, allocated,
    Option.bind_some, loaded, Option.bind_some, ocAppleDiskImageInitializeContext, trailer,
    Option.bind_some, plist, Option.bind_some, blocks]
  rfl

theorem sample_decoded (file : Bytes) : BlocksDecoded sampleExternals file := by
  intro dicts _ dict _ value data _ decoded
  unfold plistDataValue at decoded
  split at decoded
  · split at decoded
    · cases decoded
    · split at decoded
      · cases decoded
      · obtain ⟨bytes, known, fits⟩ := Option.bind_eq_some_iff.mp decoded
        have block : sampleBlock = bytes := by
          change (if _ = sampleText then some sampleBlock else none) = some bytes at known
          split at known
          · exact Option.some.inj known
          · cases known
        split at fits
        · rw [← Option.some.inj fits, ← block]
          simp only [sampleBlock, blockDataSize, length_append, length_replicate, length_cons,
            length_nil]
          decide
        · cases fits
  · cases decoded

theorem verifyChunks_single {table : ExtentTable} {size : Nat} {data : Bytes}
    (read : ocAppleRamDiskRead table 0 size = some data) :
    verifyChunks id table [⟨size, data⟩] 0 = true := by
  simp [verifyChunks, read]

theorem sample_verified (byte : UInt8) {size : Nat} {data : Bytes} (ends : size ≤ 1488)
    (front : slice (sampleImage byte) 0 size = data) :
    ocAppleDiskImageVerifyData sampleExternals (sampleContext byte) [⟨size, data⟩] = true := by
  have read := sampleImage_read byte (by decide : 0 < 1488) ((zero_add size).trans_le ends)
  rw [front] at read
  exact verifyChunks_single read

theorem sample_read_alike :
    (sampleContext 0).sectorCount = (sampleContext 0).sectorCount ∧ ∀ lba bufferSize,
      ocAppleDiskImageRead sampleExternals (sampleContext 0) lba bufferSize =
          ocAppleDiskImageRead sampleExternals (sampleContext 0) lba bufferSize ∧
        ocAppleDiskImageRead sampleExternals (sampleContext 0) lba bufferSize ≠ .spins :=
  have whole := take_of_length_le (sampleImage_length 0).le
  verified_images_read_alike [⟨1488, sampleImage 0⟩] (fun _ _ same => same)
    (sample_initialized false 0) (sample_initialized true 0) (sample_verified 0 (le_refl _) whole)
    (sample_verified 0 (le_refl _) whole) (sampleImage_length 0).le (sampleImage_length 0).le
    (sample_decoded _)

theorem readSectors_single {image data : Bytes}
    (read : ocAppleRamDiskRead [image] 464 512 = some data) :
    ocAppleDiskImageRead sampleExternals ⟨[image], (sampleContext 0).blocks, 1⟩ 0 512 = .read data := by
  simp [ocAppleDiskImageRead, readSectors, internalGetBlockChunk, sampleContext, blockHolds,
    chunkHolds, sectorStart, baseOverflowMul, appleDiskImageSectorSize, readChunk, chunkTypeZero,
    chunkTypeIgnore, chunkTypeRaw, read, ReadResult.prepend]

/-- The chunk ends before the sector, which any other may take the place of. -/
theorem uncovered_sector_differs :
    Function.Injective sampleExternals.sha256 ∧
      ocAppleDiskImageInitializeFromFile sampleExternals (sampleBehind false) (fun _ => true)
          sampleMap (.reliable (sampleImage 0)) = some (sampleContext 0) ∧
        ocAppleDiskImageInitializeFromFile sampleExternals (sampleBehind false) (fun _ => true)
            sampleMap (.reliable (sampleImage 1)) = some (sampleContext 1) ∧
          ocAppleDiskImageVerifyData sampleExternals (sampleContext 0) [⟨464, samplePlist⟩] = true ∧
            ocAppleDiskImageVerifyData sampleExternals (sampleContext 1) [⟨464, samplePlist⟩] = true ∧
              ocAppleDiskImageRead sampleExternals (sampleContext 0) 0 512 ≠
                ocAppleDiskImageRead sampleExternals (sampleContext 1) 0 512 := by
  refine ⟨fun _ _ same => same, sample_initialized false 0, sample_initialized false 1,
    sample_verified 0 (by decide) (sampleImage_plist 0),
    sample_verified 1 (by decide) (sampleImage_plist 1), ?_⟩
  have sector (byte : UInt8) : ocAppleDiskImageRead sampleExternals (sampleContext byte) 0 512 =
      .read (replicate 512 byte) := by
    apply readSectors_single
    rw [sampleImage_read byte (by decide) (by decide), slice, sampleImage, append_assoc,
      drop_left' samplePlist_length, take_left' length_replicate]
  simp [-reduceReplicate, sector, replicate_inj]

end Samples

end OpenCore.DiskImageCoverage
