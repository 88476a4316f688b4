import OpenCore.MkextDecompress

/-!
Where `MkextDecompress` writes. Every write to the output follows a comparison
with the size of the buffer, but for version 2 what is compared is the rounded
size of an executable in 32 bits, which is zero for the sizes next to 2^32.
-/

namespace OpenCore.MkextDecompress

open Base ByteBuffer BigEndian ByteSlices TracedAction XmlParse MkextFormat

def Inside (outBufferSize : Nat) : Mark → Prop
  | .write .mkext offset size => offset + size ≤ outBufferSize
  | .write (.pool room) offset size => offset + size ≤ room
  | _ => True

def Roundable : Mark → Prop
  | .unpacks _ fullSize => fullSize ≤ u32 - 8
  | _ => True

/-- The marks are inside exactly when the unpacked files are roundable, and then
the value satisfies the postcondition. -/
def Safe {α : Type} (outBufferSize : Nat) (action : Editing α) (post : α → Prop) : Prop :=
  ∀ memory, Ensures Roundable (Inside outBufferSize) action (fun value _ => post value)
    (fun _ _ => True) memory

namespace Safe

variable {α β : Type} {out : Nat} {post : α → Prop}

theorem pure {value : α} (holds : post value) : Safe out (Pure.pure value) post :=
  fun _ => .pure holds

theorem exit {status : EfiStatus} : Safe out (Action.exit status) post := fun _ => .exit trivial

theorem bind {action : Editing α} {next : α → Editing β} {last : β → Prop}
    (first : Safe out action post) (rest : ∀ value, post value → Safe out (next value) last) :
    Safe out (action >>= next) last :=
  fun memory => (first memory).bind fun value final holds => rest value holds final

theorem imp {action : Editing α} {weaker : α → Prop} (run : Safe out action post)
    (implies : ∀ value, post value → weaker value) : Safe out action weaker :=
  fun memory => (run memory).imp fun value _ => implies value

theorem modify {change : Bytes → Bytes} : Safe out (Action.modify change) fun _ => True :=
  fun _ => .modify trivial

theorem emit_bind {marks : List Mark} {next : Unit → Editing α}
    (agree : All Roundable marks ↔ All (Inside out) marks)
    (rest : All Roundable marks → Safe out (next ()) post) :
    Safe out (Action.emit marks >>= next) post := by
  intro memory
  have marked : Ensures Roundable (Inside out) (Action.emit marks : Editing Unit)
      (fun _ final => All Roundable marks ∧ final = memory) (fun _ _ => True) memory :=
    .emit agree fun met => ⟨met, rfl⟩
  apply marked.bind
  rintro _ _ ⟨met, rfl⟩
  exact rest met _

end Safe

section

variable {out : Nat}

theorem lacksRoom_safe {α : Type} {post : α → Prop} {next : Editing α} (rest : Safe out next post) :
    Safe out (Action.emit [.lacksRoom] >>= fun _ => next) post :=
  .emit_bind (iff_of_true (by simp [All, Roundable]) (by simp [All, Inside])) fun _ => rest

theorem copyMem_safe {offset size : Nat} {data : Bytes} (inside : offset + size ≤ out) :
    Safe out (copyMem offset data size) fun _ => True := by
  have agree : All Roundable [.write .mkext offset size] ↔
      All (Inside out) [.write .mkext offset size] :=
    iff_of_true (by simp [All, Roundable]) (by simpa [All, Inside] using inside)
  exact .emit_bind agree fun _ => .modify

theorem putWord_safe {offset value : Nat} (inside : offset + 4 ≤ out) :
    Safe out (putWord offset value) fun _ => True :=
  copyMem_safe inside

theorem putFile_safe {field offset fullSize modifiedSeconds : Nat} (inside : field + 16 ≤ out) :
    Safe out (putFile field offset fullSize modifiedSeconds) fun _ => True :=
  (putWord_safe (by omega)).bind fun _ _ => (putWord_safe (by omega)).bind fun _ _ =>
    (putWord_safe (by omega)).bind fun _ _ => putWord_safe (by omega)

/-- The room a file needs in the output, by its declared size: enough when the size
can be rounded, too little otherwise, where only a compressed file gets by the
checks. -/
structure FileRoom (buffer : Bytes) (headerSize offset fullSize target out : Nat) : Prop where
  enough : fullSize ≤ u32 - 8 → target + fullSize ≤ out
  lacking : u32 - 8 < fullSize → out < target + fullSize
  stored : offset + fullSize ≤ buffer.length - headerSize → fullSize ≤ u32 - 8

theorem unpackFile_safe {buffer : Bytes} {decompress : Bytes → Nat → Bytes × Nat}
    {headerSize offset compressedSize fullSize target : Nat}
    (room : FileRoom buffer headerSize offset fullSize target out) :
    Safe out (unpackFile buffer decompress headerSize offset compressedSize fullSize target)
      fun _ => True := by
  unfold unpackFile
  split
  next compressed =>
    split
    next => exact .exit
    next stop added =>
      split
      next => exact .exit
      next within =>
        have agree : All Roundable [.unpacks offset fullSize, .write .mkext target fullSize] ↔
            All (Inside out) [.unpacks offset fullSize, .write .mkext target fullSize] := by
          simp only [all_cons, Roundable, Inside, true_and, and_true, iff_true_intro (all_nil _)]
          constructor
          · exact room.enough
          · intro inside
            by_contra wide
            have lacking := room.lacking (Nat.lt_of_not_le wide)
            omega
        refine .emit_bind agree fun _ => .bind .modify fun _ _ => ?_
        split
        · exact .exit
        · exact .pure trivial
  next stored =>
    split
    next => exact .exit
    next stop added =>
      split
      next => exact .exit
      next within =>
        obtain ⟨rfl, -⟩ := baseOverflowAdd_eq_some added
        exact copyMem_safe (room.enough (room.stored (Nat.le_of_not_lt within)))

end

theorem mkextAlign_ge (value : Nat) : value ≤ mkextAlign value := Nat.le_add_right _ _

variable {value : Nat}

theorem mkextAlign32_eq (small : value ≤ u32 - 8) :
    mkextAlign32 value = mkextAlign value := by
  rw [mkextAlign32, mkextAlign]
  rw [u32_val] at *
  omega

theorem mkextAlign32_wraps (large : u32 - 8 < value) (fits : value < u32) :
    mkextAlign32 value = 0 := by
  rw [mkextAlign32, mkextAlign]
  rw [u32_val] at *
  omega

theorem roundable_of_le (fits : value < u32) (kept : value ≤ mkextAlign32 value) :
    value ≤ u32 - 8 := by
  by_contra large
  have wrapped := mkextAlign32_wraps (Nat.lt_of_not_le large) fits
  omega

theorem baseOverflowTriAdd_eq_some {a b c total : Nat}
    (added : baseOverflowTriAdd a b c = some total) : total = a + b + c ∧ a + b + c < u32 := by
  obtain ⟨sum, first, second⟩ := Option.bind_eq_some_iff.mp added
  obtain ⟨rfl, -⟩ := baseOverflowAdd_eq_some first
  exact baseOverflowAdd_eq_some second

section

variable {env : Externals} {buffer : Bytes} {out : Nat}
variable {numReservedKexts : Nat} {info : MkextInfo} {offset fullSize target : Nat}

theorem word_lt_u32 (buffer : Bytes) (offset : Nat) : word buffer offset < u32 := word_lt buffer offset

theorem fullSize_lt (mkext : Bytes) (offset : Nat) : (kextFile mkext offset).fullSize < u32 :=
  word_lt mkext (offset + 8)

theorem FileRoom.checked (fits : fullSize < u32)
    (kept : fullSize ≤ mkextAlign32 fullSize) (room : target + mkextAlign32 fullSize ≤ out) :
    FileRoom buffer 0 offset fullSize target out where
  enough _ := by omega
  lacking large := absurd (roundable_of_le fits kept) (by omega)
  stored _ := roundable_of_le fits kept

theorem decompressV1Kext_safe {index currentOffset : Nat}
    (slot : v1KextOffset (index + 1) ≤ currentOffset) :
    Safe out (decompressV1Kext env buffer out index currentOffset)
      fun next => currentOffset ≤ next := by
  have kextOffset : v1KextOffset (index + 1) = v1KextOffset index + 32 := rfl
  unfold decompressV1Kext
  simp only
  split
  next => exact .exit
  next kept =>
    rw [not_or, Nat.not_lt, Nat.not_lt] at kept
    obtain ⟨plistKept, binaryKept⟩ := kept
    split
    next => exact .exit
    next stop added =>
      obtain ⟨rfl, -⟩ := baseOverflowTriAdd_eq_some added
      split
      next => exact .pure (by omega)
      next writing =>
        split
        next => exact lacksRoom_safe .exit
        next room =>
          refine .bind (unpackFile_safe (.checked (fullSize_lt _ _) plistKept (by omega))) fun _ _ =>
            .bind (putFile_safe (by omega)) fun _ _ => ?_
          split
          next =>
            refine .bind (unpackFile_safe (.checked (fullSize_lt _ _) binaryKept (by omega)))
              fun _ _ => .bind (putFile_safe ?_) fun _ _ => .pure (by omega)
            rw [v1FileSize]
            omega
          next =>
            refine .bind (copyMem_safe ?_) fun _ _ => .pure (by omega)
            rw [v1FileSize]
            omega

theorem decompressV1Kexts_safe {count index currentOffset : Nat}
    (slots : v1KextOffset (index + count) ≤ currentOffset) :
    Safe out (decompressV1Kexts env buffer out count index currentOffset)
      fun last => currentOffset ≤ last := by
  induction count generalizing index currentOffset with
  | zero => exact .pure (Nat.le_refl _)
  | succ count ih =>
    have first : v1KextOffset (index + 1) ≤ v1KextOffset (index + (count + 1)) := by
      simp only [v1KextOffset, v1KextSize]
      omega
    have shifted : index + 1 + count = index + (count + 1) := by omega
    refine .bind (decompressV1Kext_safe (first.trans slots)) fun next later => ?_
    exact (ih (shifted ▸ slots.trans later)).imp fun last behind => later.trans behind

theorem decompressV1_safe {numKexts numMaxKexts : Nat} (fewer : numKexts ≤ numMaxKexts) :
    Safe out (decompressV1 env buffer numKexts numMaxKexts out)
      fun _ => out ≠ 0 → coreHeaderSize ≤ out := by
  unfold decompressV1
  split
  next headerSize reservedSize header reserved =>
    obtain ⟨-, -⟩ := baseOverflowMulAdd_eq_some header
    obtain ⟨size, fits⟩ := baseOverflowMulAdd_eq_some reserved
    split
    next => exact .exit
    next =>
      split
      next => exact .exit
      next =>
        -- The table ends on a multiple of 8, so rounding it up changes nothing.
        have aligned : mkextAlign32 reservedSize = reservedSize := by
          rw [mkextAlign32, mkextAlign, size]
          simp only [v1KextSize, coreHeaderSize, u32_val] at *
          omega
        have slots : v1KextOffset (0 + numKexts) ≤ mkextAlign32 reservedSize := by
          rw [aligned, size, v1KextOffset, zero_add]
          have more := Nat.mul_le_mul_left v1KextSize fewer
          omega
        have whole : Safe out (decompressV1Kexts env buffer out numKexts 0
            (mkextAlign32 reservedSize)) fun _ => True :=
          (decompressV1Kexts_safe slots).imp fun _ _ => trivial
        simp only
        split
        next sizing => exact whole.imp fun _ _ writing => absurd sizing writing
        next =>
          split
          next => exact lacksRoom_safe .exit
          next room =>
            have header : coreHeaderSize ≤ out := by
              rw [aligned, size] at room
              omega
            exact .bind (copyMem_safe (by omega)) fun _ _ => whole.imp fun _ _ _ => header
  next => exact .exit

theorem FileRoom.rounded (fits : fullSize < u32)
    (small : buffer.length < u32) (narrow : out < u32) (behind : v2FileEntrySize ≤ target)
    (room : target + mkextAlign32 fullSize ≤ out) :
    FileRoom buffer v2FileEntrySize offset fullSize target out where
  enough roundable := by
    rw [mkextAlign32_eq roundable] at room
    have grown := mkextAlign_ge fullSize
    omega
  lacking large := by
    rw [v2FileEntrySize] at behind
    omega
  stored inside := by
    rw [v2FileEntrySize] at inside
    omega

theorem hexText_length {value : Nat} (fits : value < u32) :
    (Plist.asciiUint64ToLowerHex value).length + 1 ≤ kextOffsetStrLen := by
  have digits := (Nat.length_toDigits_le_iff (by decide : 1 < 16) (by decide : 0 < 8)).mpr fits
  rw [Plist.asciiUint64ToLowerHex, Plist.hexDigits, List.length_append, List.length_map]
  have lead : (Plist.ascii "0x").length = 2 := by decide
  rw [lead, kextOffsetStrLen]
  omega

def Reached (out start : Nat) (offset : Nat) : Prop :=
  start ≤ offset ∧ offset < u32 ∧ (out ≠ 0 → offset ≤ out)

theorem decompressExecutable_safe {stringsSize index currentOffset : Nat} {executable : Tree}
    (small : buffer.length < u32) (narrow : out < u32) (fits : currentOffset < u32)
    (slot : out ≠ 0 → (index + 1) * kextOffsetStrLen ≤ stringsSize) :
    Safe out (decompressExecutable env buffer out stringsSize index currentOffset executable)
      fun changed => Reached out currentOffset changed.2 := by
  unfold decompressExecutable
  split
  next => exact .exit
  next binOffset read =>
    split
    next => exact .exit
    next =>
      simp only
      split
      next => exact .exit
      next newOffset added =>
        obtain ⟨rfl, bound⟩ := baseOverflowTriAdd_eq_some added
        split
        next sizing => exact .pure ⟨by omega, bound, fun writing => absurd sizing writing⟩
        next writing =>
          split
          next => exact lacksRoom_safe .exit
          next room =>
            have text := hexText_length fits
            have strings := slot writing
            rw [add_mul, one_mul] at strings
            rw [v2FileEntrySize] at room
            have entry := @FileRoom.rounded buffer out binOffset (word buffer (binOffset + 4))
              (currentOffset + v2FileEntrySize) (word_lt_u32 _ _) small narrow
              (Nat.le_add_left _ _) (by rw [v2FileEntrySize]; omega)
            refine .bind (putWord_safe (by omega)) fun _ _ => .bind (putWord_safe (by omega))
              fun _ _ => .bind (unpackFile_safe entry) fun _ _ => .emit_bind ?_ fun _ => .pure ?_
            · refine iff_of_true (by simp [All, Roundable]) ?_
              simp only [all_cons, Inside, iff_true_intro (all_nil _), and_true]
              omega
            · refine ⟨?_, bound, fun _ => Nat.le_of_not_lt room⟩
              simp only
              omega

theorem decompressBundles_safe {stringsSize : Nat} (small : buffer.length < u32)
    (narrow : out < u32) (bundles : List Tree) (index currentOffset : Nat)
    (start : Reached out 0 currentOffset)
    (slots : out ≠ 0 → (index + bundles.length) * kextOffsetStrLen ≤ stringsSize) :
    Safe out (decompressBundles env buffer out stringsSize bundles index currentOffset)
      fun changed => Reached out currentOffset changed.2 := by
  induction bundles generalizing index currentOffset with
  | nil => exact .pure ⟨Nat.le_refl _, start.2⟩
  | cons bundle rest ih =>
    have later : out ≠ 0 → (index + 1 + rest.length) * kextOffsetStrLen ≤ stringsSize := by
      intro writing
      have shifted : index + 1 + rest.length = index + (bundle :: rest).length := by
        rw [List.length_cons]
        omega
      rw [shifted]
      exact slots writing
    unfold decompressBundles
    split
    next => exact .exit
    next =>
      split
      next => exact .bind (ih (index + 1) currentOffset start later) fun _ reached => .pure reached
      next before executable after found =>
        have slot : out ≠ 0 → (index + 1) * kextOffsetStrLen ≤ stringsSize := fun writing =>
          (Nat.mul_le_mul_right _ (Nat.le_add_right _ _)).trans (later writing)
        refine .bind (decompressExecutable_safe small narrow start.2.1 slot) fun changed next => ?_
        refine .bind (ih (index + 1) changed.2 ⟨Nat.zero_le _, next.2⟩ later) fun _ last => ?_
        exact .pure ⟨next.1.trans last.1, last.2⟩

theorem poolFilled_safe {α : Type} {post : α → Prop} {size : Nat} {next : Editing α}
    (rest : Safe out next post) :
    Safe out (Action.emit [.write (.pool size) 0 size] >>= fun _ => next) post := by
  refine .emit_bind (iff_of_true (by simp [All, Roundable]) ?_) fun _ => rest
  simp only [all_cons, Inside, zero_add, Nat.le_refl, iff_true_intro (all_nil _), and_true]

theorem parseMkextV2Plist_safe :
    Safe out (parseMkextV2Plist env buffer) fun _ => True := by
  unfold parseMkextV2Plist
  simp only
  split
  next => exact .pure trivial
  next =>
    split
    next => exact .pure trivial
    next =>
      split
      next => exact .pure trivial
      next =>
        split
        next => exact poolFilled_safe (.pure trivial)
        next => exact poolFilled_safe (.pure trivial)

theorem updateMkextV2Plist_safe {offset : Nat} (header : v2HeaderSize ≤ out) :
    Safe out (updateMkextV2Plist out info offset) fun _ => True := by
  have fields : plistOffsetField + 4 ≤ out ∧ plistFullSizeField + 4 ≤ out ∧
      plistCompressedSizeField + 4 ≤ out := by
    rw [v2HeaderSize] at header
    simp only [plistOffsetField, plistFullSizeField, plistCompressedSizeField]
    omega
  unfold updateMkextV2Plist
  split
  next => exact .pure trivial
  next =>
    simp only
    split
    next => exact lacksRoom_safe (.pure trivial)
    next stop added =>
      obtain ⟨rfl, -⟩ := baseOverflowAdd_eq_some added
      split
      next => exact lacksRoom_safe (.pure trivial)
      next room =>
        exact .bind (copyMem_safe (by omega)) fun _ _ => .bind (putWord_safe fields.1) fun _ _ =>
          .bind (putWord_safe fields.2.1) fun _ _ => .bind (putWord_safe fields.2.2) fun _ _ =>
            .pure trivial

theorem header_reached (header : out ≠ 0 → mkextAlign v2HeaderSize ≤ out) :
    Reached out 0 (mkextAlign v2HeaderSize) :=
  ⟨Nat.zero_le _, by decide, header⟩

theorem sizeV2_safe (small : buffer.length < u32) :
    Safe 0 (sizeV2 env buffer numReservedKexts info) fun _ => True := by
  unfold sizeV2
  refine .bind (decompressBundles_safe small (by decide) _ _ _ (header_reached nofun) nofun)
    fun _ _ => ?_
  simp only
  split
  next => exact .exit
  next => exact .pure trivial

theorem writeV2_safe (small : buffer.length < u32) (narrow : out < u32)
    (header : mkextAlign v2HeaderSize ≤ out) :
    Safe out (writeV2 env buffer out info) fun _ => True := by
  unfold writeV2
  simp only
  split
  next => exact .exit
  next stringsSize multiplied =>
    obtain ⟨rfl, -⟩ := baseOverflowMul_eq_some multiplied
    split
    next => exact .exit
    next =>
      refine .bind (decompressBundles_safe small narrow _ _ _ (header_reached fun _ => header)
        fun _ => by rw [zero_add]) fun changed _ => ?_
      refine .bind (updateMkextV2Plist_safe ((mkextAlign_ge _).trans header)) fun _ _ => ?_
      split
      next => exact .exit
      next =>
        split
        next => exact .exit
        next => exact .pure trivial

theorem decompressV2_safe (small : buffer.length < u32)
    (narrow : out < u32) :
    Safe out (decompressV2 env buffer numReservedKexts out)
      fun _ => out ≠ 0 → coreHeaderSize ≤ out := by
  have headers : coreHeaderSize ≤ v2HeaderSize ∧ v2HeaderSize ≤ mkextAlign v2HeaderSize := by decide
  unfold decompressV2
  split
  next => exact .exit
  next =>
    split
    next sizing =>
      refine .bind parseMkextV2Plist_safe fun info _ => ?_
      split
      next => exact .exit
      next =>
        subst sizing
        exact (sizeV2_safe small).imp fun _ _ writing => absurd rfl writing
    next =>
      split
      next => exact lacksRoom_safe .exit
      next room =>
        refine .bind (copyMem_safe (by omega)) fun _ _ => .bind parseMkextV2Plist_safe fun info _ => ?_
        split
        next => exact .exit
        next => exact (writeV2_safe small narrow (Nat.le_of_not_lt room)).imp fun _ _ _ => by omega

theorem updateMkextLengthChecksum_safe {length : Nat} (header : coreHeaderSize ≤ out) :
    Safe out (updateMkextLengthChecksum length) fun _ => True := by
  rw [coreHeaderSize] at header
  refine .bind (putWord_safe (by rw [lengthField]; omega)) fun _ _ memory => .get_bind ?_
  exact putWord_safe (by rw [adler32Field]; omega) memory

theorem decompressVersion_safe (small : buffer.length < u32)
    (narrow : out < u32) :
    Safe out (decompressVersion env buffer numReservedKexts
      (word buffer numKextsField + numReservedKexts) out) fun _ => out ≠ 0 → coreHeaderSize ≤ out := by
  unfold decompressVersion
  split
  · exact decompressV1_safe (Nat.le_add_right _ _)
  · split
    · exact decompressV2_safe small narrow
    · exact .exit

theorem mkextDecompress_safe {address numReservedKexts : Nat} (narrow : out < u32) :
    Safe out (mkextDecompress env buffer address numReservedKexts out) fun _ => True := by
  unfold mkextDecompress
  split
  next => exact .exit
  next =>
    split
    next => exact .exit
    next matching =>
      have small : buffer.length < u32 := by
        have field := word_lt_u32 buffer lengthField
        simp only [not_or, not_not] at matching
        rw [matching.2.2]
        exact field
      split
      next => exact .exit
      next numMaxKexts added =>
        obtain ⟨rfl, -⟩ := baseOverflowAdd_eq_some added
        refine .bind (decompressVersion_safe small narrow) fun size header => ?_
        split
        next writing =>
          exact .bind (updateMkextLengthChecksum_safe (header writing)) fun _ _ => .pure trivial
        next => exact .pure trivial

end

/-- Every byte written to the output, and every destination a decompressor is
given, lies in the buffer exactly when rounding up the size of no executable that
is unpacked wraps. -/
theorem mkextDecompress_inside_iff (env : Externals) (buffer memory : Bytes)
    (address numReservedKexts outBufferSize : Nat) (narrow : outBufferSize < u32) :
    (∀ mark ∈ (mkextDecompress env buffer address numReservedKexts outBufferSize).marks memory,
      Inside outBufferSize mark) ↔
    ∀ mark ∈ (mkextDecompress env buffer address numReservedKexts outBufferSize).marks memory,
      Roundable mark :=
  (mkextDecompress_safe narrow memory).1.symm

section Samples

/-- Decompressors that refuse what they are given, as the real ones do above 1 GB. -/
def refusing : Externals := ⟨fun _ _ => ([], 0), fun _ _ => ([], 0), fun _ => true⟩

def sampleV2Header (length numKexts plistOffset plistSize : Nat) : Bytes :=
  [mkextMagic, mkextSignature, length, 0, mkextVersionV2, numKexts, 7, 3, plistOffset, 0,
    plistSize].flatMap (toBigEndian 4)

def executablePlist : Bytes := Plist.ascii
  ("<dict><key>_MKEXTInfoDictionaries</key><array><dict><key>_MKEXTExecutable</key>" ++
    "<integer>48</integer></dict></array></dict>")

def compressedMkext (fullSize : Nat) : Bytes :=
  sampleV2Header (57 + executablePlist.length) 1 57 executablePlist.length ++
    List.replicate 4 0 ++ toBigEndian 4 1 ++ toBigEndian 4 fullSize ++ [120] ++ executablePlist

theorem mkextDecompress_inside_sample :
    64 < u32 ∧
      ((∀ mark ∈ (mkextDecompress refusing (compressedMkext 8) 0 0 64).marks (List.replicate 64 0),
        Inside 64 mark) ↔
      ∀ mark ∈ (mkextDecompress refusing (compressedMkext 8) 0 0 64).marks (List.replicate 64 0),
        Roundable mark) :=
  ⟨by decide, mkextDecompress_inside_iff refusing (compressedMkext 8) _ 0 0 64 (by decide)⟩

/-- The output has room for the header and a file entry, and the decompressor is
told that 4294967295 bytes are free behind them. -/
theorem mkextDecompress_hands_out_too_much :
    ∃ mark ∈ (mkextDecompress refusing (compressedMkext 0xFFFFFFFF) 0 0 56).marks
      (List.replicate 56 0), ¬ Inside 56 mark := by
  refine ⟨.write .mkext 56 0xFFFFFFFF, ?_, by simp [Inside]⟩
  rw [compressedMkext, executablePlist]
  repeat rw [Plist.ascii_append]
  repeat rw [Plist.ascii_ofList]
  decide +kernel

end Samples

end OpenCore.MkextDecompress
