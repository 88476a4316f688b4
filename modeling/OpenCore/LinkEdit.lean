import OpenCore.ByteBuffer

/-!
The new __LINKEDIT of a kext, as the end of `InternalPrelinkKext` assembles it in
the link buffer: the symbol table without the undefined symbols, the preserved
relocations, the string table. The symbol table is the one in the file when the
copying starts, its values already solved and relocated in place. 32-bit objects
take another path and keep no __LINKEDIT.
-/

namespace OpenCore.LinkEdit

open ByteBuffer List

def slice (buffer : Bytes) (offset size : Nat) : Bytes := (buffer.drop offset).take size

theorem slice_getElem? (buffer : Bytes) (offset size index : Nat) :
    (slice buffer offset size)[index]? = if index < size then buffer[offset + index]? else none := by
  rw [slice, getElem?_take, getElem?_drop]

theorem slice_length (buffer : Bytes) (offset size : Nat) (inside : offset + size ≤ buffer.length) :
    (slice buffer offset size).length = size := by
  rw [slice, length_take, length_drop]
  omega

def nlistSize (is32Bit : Bool) : Nat := if is32Bit then 12 else 16

def nlistAnySize : Nat := 16

def relocationInfoSize : Nat := 8

theorem nlistSize_pos (is32Bit : Bool) : 0 < nlistSize is32Bit := by
  cases is32Bit <;> decide

/-- The symbol counts of a kext; the undefined symbols lie in the table, as
`InternalInitialiseSymtabs` checks. -/
structure SymbolRanges where
  is32Bit : Bool
  numSymbols : Nat
  undefinedSymbolsIndex : Nat
  numUndefinedSymbols : Nat
  undefinedInside : undefinedSymbolsIndex + numUndefinedSymbols ≤ numSymbols
  fits : numSymbols * nlistSize is32Bit + 1 < 2 ^ 32

namespace SymbolRanges

variable (ranges : SymbolRanges)

def nlist : Nat := nlistSize ranges.is32Bit

def symbolTableSize : Nat :=
  ranges.numSymbols * ranges.nlist - ranges.numUndefinedSymbols * ranges.nlist

def behindUndefined : Nat :=
  (ranges.undefinedSymbolsIndex + ranges.numUndefinedSymbols) * ranges.nlist

/-- `SymtabSize`: `UndefinedSymtab - SymbolTable` is a difference of
`MACH_NLIST_ANY` pointers, whatever the layout of the entries. -/
def symtabSize : Nat :=
  if 0 < ranges.numUndefinedSymbols then
    (ranges.undefinedSymbolsIndex * ranges.nlist / nlistAnySize) * ranges.nlist % 2 ^ 32
  else ranges.symbolTableSize

def symtabSize2 : Nat :=
  if 0 < ranges.numUndefinedSymbols then
    (ranges.numSymbols - (ranges.undefinedSymbolsIndex + ranges.numUndefinedSymbols)) % 2 ^ 32 *
      ranges.nlist % 2 ^ 32
  else 0

end SymbolRanges

/-- The bytes and offsets of a kext with these symbols that passed the checks of
the Mach-O library and of `InternalPrelinkKext`. -/
structure Image (ranges : SymbolRanges) where
  fileData : Bytes
  linkBuffer : Bytes
  symbolsOffset : Nat
  stringsOffset : Nat
  stringsSize : Nat
  /-- Relocations preserved; they lie in the link buffer already. -/
  numRelocations : Nat
  linkEditFileOffset : Nat
  linkEditFileSize : Nat
  fileSize : fileData.length < 2 ^ 32
  symbolsInside : symbolsOffset + ranges.numSymbols * ranges.nlist ≤ fileData.length
  stringsInside : stringsOffset + stringsSize ≤ fileData.length
  linkEditInside : linkEditFileOffset + linkEditFileSize ≤ fileData.length
  linkEditRoom : ranges.numSymbols * ranges.nlist + numRelocations * relocationInfoSize +
    stringsSize ≤ linkEditFileSize
  bufferRoom : linkEditFileSize ≤ linkBuffer.length

namespace Image

variable {ranges : SymbolRanges} (image : Image ranges)

def symbolTable : Bytes :=
  slice image.fileData image.symbolsOffset (ranges.numSymbols * ranges.nlist)

def relocationsOffset (_ : Image ranges) : Nat := ranges.symbolTableSize

def relocationsSize : Nat := image.numRelocations * relocationInfoSize

def stringTableOffset : Nat := image.relocationsOffset + image.relocationsSize

def symbolsCopied : Bytes :=
  let first := overlay image.linkBuffer 0
    (slice image.fileData image.symbolsOffset ranges.symtabSize)
  if 0 < ranges.numUndefinedSymbols then
    overlay first ranges.symtabSize
      (slice image.fileData (image.symbolsOffset + ranges.behindUndefined) ranges.symtabSize2)
  else first

def linkEdit : Bytes :=
  overlay image.symbolsCopied image.stringTableOffset
    (slice image.fileData image.stringsOffset image.stringsSize)

def linkEditSize : Nat := ranges.symbolTableSize + image.relocationsSize + image.stringsSize

def prelinkedData : Bytes :=
  overlay
    (overlay image.fileData image.linkEditFileOffset (slice image.linkEdit 0 image.linkEditSize))
    (image.linkEditFileOffset + image.linkEditSize)
    (replicate (image.linkEditFileSize - image.linkEditSize) 0)

def newSymbolsOffset : Nat := image.linkEditFileOffset % 2 ^ 32

def newNumSymbols (_ : Image ranges) : Nat :=
  if 0 < ranges.numUndefinedSymbols then ranges.numSymbols - ranges.numUndefinedSymbols
  else ranges.numSymbols

def newSymbolTable : Bytes :=
  slice image.prelinkedData image.newSymbolsOffset (image.newNumSymbols * ranges.nlist)

def withoutUndefined : Bytes :=
  image.symbolTable.take (ranges.undefinedSymbolsIndex * ranges.nlist) ++
    image.symbolTable.drop ranges.behindUndefined

end Image

namespace SymbolRanges

variable (ranges : SymbolRanges)

theorem symtabSize_le (undefined : 0 < ranges.numUndefinedSymbols) :
    ranges.symtabSize ≤ ranges.undefinedSymbolsIndex * ranges.nlist := by
  rw [symtabSize, if_pos undefined]
  apply le_trans (Nat.mod_le _ _)
  apply Nat.mul_le_mul_right
  apply Nat.div_le_of_le_mul
  rw [Nat.mul_comm]
  apply Nat.mul_le_mul_right
  unfold nlist
  cases ranges.is32Bit <;> decide

theorem undefined_bytes :
    ranges.undefinedSymbolsIndex * ranges.nlist + ranges.numUndefinedSymbols * ranges.nlist ≤
      ranges.numSymbols * ranges.nlist := by
  rw [← Nat.add_mul]
  exact Nat.mul_le_mul_right _ ranges.undefinedInside

theorem behindUndefined_eq :
    ranges.behindUndefined =
      ranges.undefinedSymbolsIndex * ranges.nlist + ranges.numUndefinedSymbols * ranges.nlist :=
  Nat.add_mul _ _ _

theorem symtabSize2_eq (undefined : 0 < ranges.numUndefinedSymbols) :
    ranges.symtabSize2 = ranges.numSymbols * ranges.nlist - ranges.behindUndefined := by
  have fits := ranges.fits
  have entry := nlistSize_pos ranges.is32Bit
  have count : ranges.numSymbols ≤ ranges.numSymbols * nlistSize ranges.is32Bit :=
    Nat.le_mul_of_pos_right _ entry
  have bytes : (ranges.numSymbols - (ranges.undefinedSymbolsIndex + ranges.numUndefinedSymbols)) *
      ranges.nlist = ranges.numSymbols * ranges.nlist - ranges.behindUndefined := Nat.sub_mul _ _ _
  have small : ranges.numSymbols * ranges.nlist - ranges.behindUndefined < 2 ^ 32 := by
    rw [nlist]
    omega
  have counted : (ranges.numSymbols - (ranges.undefinedSymbolsIndex + ranges.numUndefinedSymbols)) %
      2 ^ 32 = ranges.numSymbols - (ranges.undefinedSymbolsIndex + ranges.numUndefinedSymbols) :=
    Nat.mod_eq_of_lt (by omega)
  rw [symtabSize2, if_pos undefined, counted, bytes, Nat.mod_eq_of_lt small]

theorem parts_le : ranges.symtabSize + ranges.symtabSize2 ≤ ranges.symbolTableSize := by
  have bytes := ranges.undefined_bytes
  have behind := ranges.behindUndefined_eq
  by_cases undefined : 0 < ranges.numUndefinedSymbols
  · have first := ranges.symtabSize_le undefined
    rw [ranges.symtabSize2_eq undefined, symbolTableSize]
    omega
  · rw [symtabSize, symtabSize2, if_neg undefined, if_neg undefined]
    exact le_refl _

theorem symtabSize_of_64 (wide : ranges.is32Bit = false) (undefined : 0 < ranges.numUndefinedSymbols) :
    ranges.symtabSize = ranges.undefinedSymbolsIndex * ranges.nlist := by
  have entry : ranges.nlist = 16 := by
    rw [nlist, wide]
    rfl
  have fits := ranges.fits
  have bytes := ranges.undefined_bytes
  have size : ranges.numSymbols * nlistSize ranges.is32Bit = ranges.numSymbols * ranges.nlist := rfl
  rw [symtabSize, if_pos undefined, entry, nlistAnySize, Nat.mul_div_cancel _ (by decide), ← entry]
  exact Nat.mod_eq_of_lt (by omega)

/-- For 12-byte entries it counts less than the entries before the undefined ones. -/
theorem symtabSize_of_32 (narrow : ranges.is32Bit = true) (undefined : 0 < ranges.numUndefinedSymbols)
    (before : 0 < ranges.undefinedSymbolsIndex) :
    ranges.symtabSize < ranges.undefinedSymbolsIndex * ranges.nlist := by
  have entry : ranges.nlist = 12 := by
    rw [nlist, narrow]
    rfl
  have reduced := Nat.mod_le
    (ranges.undefinedSymbolsIndex * ranges.nlist / nlistAnySize * ranges.nlist) (2 ^ 32)
  rw [symtabSize, if_pos undefined]
  rw [entry, nlistAnySize] at reduced ⊢
  omega

end SymbolRanges

namespace Image

variable {ranges : SymbolRanges} (image : Image ranges)

theorem newSize_eq : image.newNumSymbols * ranges.nlist = ranges.symbolTableSize := by
  rw [newNumSymbols, SymbolRanges.symbolTableSize]
  by_cases undefined : 0 < ranges.numUndefinedSymbols
  · rw [if_pos undefined, Nat.sub_mul]
  · have none : ranges.numUndefinedSymbols = 0 := by omega
    rw [if_neg undefined, none, Nat.zero_mul, Nat.sub_zero]

theorem sizes_le :
    ranges.symbolTableSize ≤ ranges.numSymbols * ranges.nlist ∧
      image.linkEditSize ≤ image.linkEditFileSize ∧
      image.linkEditFileSize ≤ image.linkBuffer.length := by
  have room := image.linkEditRoom
  refine ⟨Nat.sub_le _ _, ?_, image.bufferRoom⟩
  rw [linkEditSize, relocationsSize, SymbolRanges.symbolTableSize]
  omega

theorem firstPart_length :
    (slice image.fileData image.symbolsOffset ranges.symtabSize).length = ranges.symtabSize := by
  apply slice_length
  have inside := image.symbolsInside
  have kept := ranges.parts_le
  have sizes := image.sizes_le
  omega

theorem secondPart_length (undefined : 0 < ranges.numUndefinedSymbols) :
    (slice image.fileData (image.symbolsOffset + ranges.behindUndefined) ranges.symtabSize2).length =
      ranges.symtabSize2 := by
  apply slice_length
  have inside := image.symbolsInside
  have bytes := ranges.undefined_bytes
  rw [ranges.symtabSize2_eq undefined]
  rw [ranges.behindUndefined_eq]
  omega

theorem symbolsCopied_length : image.symbolsCopied.length = image.linkBuffer.length := by
  rw [symbolsCopied]
  split
  · rw [overlay_length, overlay_length]
  · exact overlay_length _ _ _

theorem symbolsCopied_getElem? (index : Nat) :
    image.symbolsCopied[index]? =
      if index < ranges.symtabSize then image.fileData[image.symbolsOffset + index]?
      else if index < ranges.symtabSize + ranges.symtabSize2 then
        image.fileData[image.symbolsOffset + ranges.behindUndefined + (index - ranges.symtabSize)]?
      else image.linkBuffer[index]? := by
  have kept := ranges.parts_le
  have sizes := image.sizes_le
  have room := image.linkEditRoom
  have firstLength := image.firstPart_length
  have first : ∀ index, (overlay image.linkBuffer 0
      (slice image.fileData image.symbolsOffset ranges.symtabSize))[index]? =
        if index < ranges.symtabSize then image.fileData[image.symbolsOffset + index]?
        else image.linkBuffer[index]? := by
    intro index
    rw [overlay_getElem? (by omega), firstLength, Nat.sub_zero, slice_getElem?]
    by_cases before : index < ranges.symtabSize
    · rw [if_pos (by omega), if_pos before, if_pos before]
    · rw [if_neg (by omega), if_neg before]
  by_cases undefined : 0 < ranges.numUndefinedSymbols
  · have secondLength := image.secondPart_length undefined
    simp only [symbolsCopied, if_pos undefined]
    rw [overlay_getElem? (by rw [overlay_length]; omega), secondLength, first, slice_getElem?]
    by_cases before : index < ranges.symtabSize
    · rw [if_neg (by omega), if_pos before, if_pos before]
    · by_cases second : index < ranges.symtabSize + ranges.symtabSize2
      · rw [if_pos (by omega), if_pos (by omega), if_neg before, if_pos second]
      · rw [if_neg (by omega), if_neg before, if_neg before, if_neg second]
  · have nothing : ranges.symtabSize2 = 0 := by
      rw [SymbolRanges.symtabSize2, if_neg undefined]
    simp only [symbolsCopied, if_neg undefined, nothing, Nat.add_zero, first]
    by_cases before : index < ranges.symtabSize
    · rw [if_pos before, if_pos before]
    · rw [if_neg before, if_neg before, if_neg before]

theorem newSymbolTable_getElem? (index : Nat) :
    image.newSymbolTable[index]? =
      if index < ranges.symbolTableSize then image.symbolsCopied[index]? else none := by
  obtain ⟨kept, room, buffer⟩ := image.sizes_le
  have fileSize := image.fileSize
  have inside := image.linkEditInside
  have strings := slice_length _ _ _ image.stringsInside
  have fits : image.newSymbolsOffset = image.linkEditFileOffset := Nat.mod_eq_of_lt (by omega)
  have size : image.linkEditSize = image.stringTableOffset + image.stringsSize := rfl
  have behind : ranges.symbolTableSize ≤ image.stringTableOffset := Nat.le_add_right _ _
  have copied := image.symbolsCopied_length
  have length : image.linkEdit.length = image.linkBuffer.length := by
    rw [linkEdit, overlay_length, copied]
  have part : (slice image.linkEdit 0 image.linkEditSize).length = image.linkEditSize :=
    slice_length _ _ _ (by omega)
  rw [newSymbolTable, slice_getElem?, image.newSize_eq, fits]
  by_cases within : index < ranges.symbolTableSize
  · rw [if_pos within, if_pos within, prelinkedData,
      overlay_getElem? (by rw [overlay_length, length_replicate]; omega),
      if_neg (by omega), overlay_getElem? (by omega), if_pos (by omega), Nat.add_sub_cancel_left,
      slice_getElem?, if_pos (by omega), Nat.zero_add, linkEdit,
      overlay_getElem? (by omega), if_neg (by omega)]
  · rw [if_neg within, if_neg within]

theorem symbolTable_getElem? (index : Nat) :
    image.symbolTable[index]? =
      if index < ranges.numSymbols * ranges.nlist then image.fileData[image.symbolsOffset + index]?
      else none :=
  slice_getElem? _ _ _ _

theorem symbolTable_length : image.symbolTable.length = ranges.numSymbols * ranges.nlist :=
  slice_length _ _ _ image.symbolsInside

theorem withoutUndefined_getElem? (index : Nat) :
    image.withoutUndefined[index]? = if index < ranges.undefinedSymbolsIndex * ranges.nlist then
        image.fileData[image.symbolsOffset + index]?
      else if index < ranges.symbolTableSize then
        image.fileData[image.symbolsOffset + ranges.behindUndefined +
          (index - ranges.undefinedSymbolsIndex * ranges.nlist)]?
      else none := by
  have bytes := ranges.undefined_bytes
  have behind := ranges.behindUndefined_eq
  have length := image.symbolTable_length
  have front : (image.symbolTable.take (ranges.undefinedSymbolsIndex * ranges.nlist)).length =
      ranges.undefinedSymbolsIndex * ranges.nlist := by
    rw [length_take]
    omega
  have room : ranges.symbolTableSize =
      ranges.numSymbols * ranges.nlist - ranges.numUndefinedSymbols * ranges.nlist := rfl
  rw [withoutUndefined, getElem?_append, front]
  by_cases before : index < ranges.undefinedSymbolsIndex * ranges.nlist
  · rw [if_pos before, if_pos before, getElem?_take, if_pos before, symbolTable_getElem?,
      if_pos (by omega)]
  · rw [if_neg before, if_neg before, getElem?_drop, symbolTable_getElem?]
    by_cases within : index < ranges.symbolTableSize
    · rw [if_pos within, if_pos (by omega), Nat.add_assoc]
    · rw [if_neg within, if_neg (by omega)]

theorem newSymbolTable_eq_withoutUndefined (cut : 0 < ranges.numUndefinedSymbols →
      ranges.symtabSize = ranges.undefinedSymbolsIndex * ranges.nlist) :
    image.newSymbolTable = image.withoutUndefined := by
  have bytes := ranges.undefined_bytes
  have behind := ranges.behindUndefined_eq
  have room : ranges.symbolTableSize =
      ranges.numSymbols * ranges.nlist - ranges.numUndefinedSymbols * ranges.nlist := rfl
  apply ext_getElem?
  intro index
  rw [newSymbolTable_getElem?, withoutUndefined_getElem?, symbolsCopied_getElem?]
  by_cases undefined : 0 < ranges.numUndefinedSymbols
  · rw [cut undefined, ranges.symtabSize2_eq undefined]
    by_cases before : index < ranges.undefinedSymbolsIndex * ranges.nlist
    · rw [if_pos (by omega), if_pos before, if_pos before]
    · rw [if_neg before, if_neg before]
      by_cases within : index < ranges.symbolTableSize
      · rw [if_pos within, if_pos (by omega), if_pos within]
      · rw [if_neg within, if_neg within]
  · -- without undefined symbols everything is the first part
    have none : ranges.numUndefinedSymbols = 0 := by omega
    have whole : ranges.symtabSize = ranges.symbolTableSize := by
      rw [SymbolRanges.symtabSize, if_neg undefined]
    rw [none, Nat.zero_mul] at behind room
    rw [whole, behind]
    by_cases within : index < ranges.symbolTableSize
    · rw [if_pos within, if_pos within, if_pos within]
      by_cases before : index < ranges.undefinedSymbolsIndex * ranges.nlist
      · rw [if_pos before]
      · rw [if_neg before]
        congr 1
        omega
    · rw [if_neg within, if_neg (by omega), if_neg within]

end Image

/-- A file whose symbols before the undefined ones have value 1 and whose other
bytes are zero, with a zeroed link buffer. -/
def markedByte (ranges : SymbolRanges) (index : Nat) : UInt8 :=
  if index < ranges.undefinedSymbolsIndex * ranges.nlist ∧ index % ranges.nlist = 8 then 1 else 0

def markedImage (ranges : SymbolRanges) : Image ranges where
  fileData := (List.range (ranges.numSymbols * ranges.nlist + 1)).map (markedByte ranges)
  linkBuffer := replicate (ranges.numSymbols * ranges.nlist + 1) 0
  symbolsOffset := 0
  stringsOffset := ranges.numSymbols * ranges.nlist
  stringsSize := 1
  numRelocations := 0
  linkEditFileOffset := 0
  linkEditFileSize := ranges.numSymbols * ranges.nlist + 1
  fileSize := by
    rw [length_map, length_range]
    exact ranges.fits
  symbolsInside := by
    rw [length_map, length_range]
    omega
  stringsInside := by
    rw [length_map, length_range]
  linkEditInside := by
    rw [length_map, length_range]
    omega
  linkEditRoom := by omega
  bufferRoom := by rw [length_replicate]

theorem markedImage_getElem? (ranges : SymbolRanges) (index : Nat)
    (inside : index < ranges.numSymbols * ranges.nlist) :
    (markedImage ranges).fileData[index]? = some (markedByte ranges index) := by
  rw [markedImage, getElem?_map, getElem?_range (by omega)]
  rfl

/-- The value byte of the first symbol that the short first part leaves out is
lost. -/
theorem markedImage_newSymbolTable_ne (ranges : SymbolRanges) (narrow : ranges.is32Bit = true)
    (undefined : 0 < ranges.numUndefinedSymbols) (before : 0 < ranges.undefinedSymbolsIndex) :
    (markedImage ranges).newSymbolTable ≠ (markedImage ranges).withoutUndefined := by
  have entry : ranges.nlist = 12 := by
    rw [SymbolRanges.nlist, narrow]
    rfl
  have short := ranges.symtabSize_of_32 narrow undefined before
  have bytes := ranges.undefined_bytes
  have behind := ranges.behindUndefined_eq
  have second := ranges.symtabSize2_eq undefined
  have room : ranges.symbolTableSize =
      ranges.numSymbols * ranges.nlist - ranges.numUndefinedSymbols * ranges.nlist := rfl
  have whole : ranges.symtabSize % 12 = 0 := by
    have fits := ranges.fits
    have reduced : ranges.undefinedSymbolsIndex * ranges.nlist / nlistAnySize * ranges.nlist <
        2 ^ 32 := by
      rw [SymbolRanges.nlist, nlistAnySize] at *
      rw [entry] at *
      omega
    rw [SymbolRanges.symtabSize, if_pos undefined, Nat.mod_eq_of_lt reduced, entry]
    exact Nat.mul_mod_left _ _
  intro equal
  have lost := congrArg (fun table => table[ranges.symtabSize + 8]?) equal
  rw [entry] at short bytes behind second room
  have within : ranges.symtabSize + 8 < ranges.symbolTableSize := by omega
  have behindFirst : ¬ ranges.symtabSize + 8 < ranges.symtabSize := by omega
  have inFront : ranges.symtabSize + 8 < ranges.undefinedSymbolsIndex * 12 := by omega
  rw [Image.newSymbolTable_getElem?, Image.withoutUndefined_getElem?,
    Image.symbolsCopied_getElem?, if_pos within, if_neg behindFirst, entry, if_pos inFront] at lost
  have kept : (markedImage ranges).fileData[(markedImage ranges).symbolsOffset +
      (ranges.symtabSize + 8)]? = some 1 := by
    have offset : (markedImage ranges).symbolsOffset + (ranges.symtabSize + 8) =
        ranges.symtabSize + 8 := Nat.zero_add _
    rw [offset, markedImage_getElem? _ _ (by rw [entry]; omega), markedByte, entry,
      if_pos (by omega)]
  rw [kept] at lost
  split at lost
  · have offset : (markedImage ranges).symbolsOffset + ranges.behindUndefined +
        (ranges.symtabSize + 8 - ranges.symtabSize) = ranges.behindUndefined + 8 := by
      have zero : (markedImage ranges).symbolsOffset = 0 := rfl
      omega
    rw [offset, markedImage_getElem? _ _ (by rw [entry]; omega), markedByte, entry,
      if_neg (by omega)] at lost
    simp at lost
  · rw [markedImage, getElem?_replicate, if_pos (by rw [entry]; omega)] at lost
    simp at lost

/-- The new symbol table is the old one without the undefined symbols, whatever
the bytes of the kext, exactly for 64-bit kexts, kexts without undefined symbols
and kexts whose undefined symbols stand first. -/
theorem undefined_symbols_removed_iff (ranges : SymbolRanges) :
    (∀ image : Image ranges, image.newSymbolTable = image.withoutUndefined) ↔
      ranges.is32Bit = false ∨ ranges.numUndefinedSymbols = 0 ∨
        ranges.undefinedSymbolsIndex = 0 := by
  constructor
  · intro correct
    by_contra others
    push Not at others
    obtain ⟨narrow, undefined, before⟩ := others
    exact markedImage_newSymbolTable_ne ranges (by simpa using narrow)
      (Nat.pos_of_ne_zero undefined) (Nat.pos_of_ne_zero before) (correct (markedImage ranges))
  · intro condition image
    apply image.newSymbolTable_eq_withoutUndefined
    intro undefined
    rcases condition with wide | none | first
    · exact ranges.symtabSize_of_64 wide undefined
    · omega
    · rw [SymbolRanges.symtabSize, if_pos undefined, first, Nat.zero_mul, Nat.zero_div, Nat.zero_mul]
      rfl

def threeSymbols : SymbolRanges where
  is32Bit := true
  numSymbols := 3
  undefinedSymbolsIndex := 1
  numUndefinedSymbols := 1
  undefinedInside := by decide
  fits := by decide

def threeSymbolsImage : Image threeSymbols where
  fileData := replicate 28 0 ++
    [1, 0, 0, 0, 0x0E, 1, 0, 0, 0x10, 0, 0, 0,
     3, 0, 0, 0, 0x01, 0, 0, 0, 0, 0, 0, 0,
     5, 0, 0, 0, 0x0F, 1, 0, 0, 0x20, 0, 0, 0] ++ [0, 97, 0, 98, 0, 99, 0, 0]
  linkBuffer := replicate 44 0
  symbolsOffset := 28
  stringsOffset := 64
  stringsSize := 8
  numRelocations := 0
  linkEditFileOffset := 28
  linkEditFileSize := 44
  fileSize := by decide
  symbolsInside := by decide
  stringsInside := by decide
  linkEditInside := by decide
  linkEditRoom := by decide
  bufferRoom := by decide

/-- The local symbol is dropped and the external one moves to its place. -/
theorem local_symbol_lost :
    threeSymbolsImage.newSymbolTable =
        [5, 0, 0, 0, 0x0F, 1, 0, 0, 0x20, 0, 0, 0] ++ replicate 12 0 ∧
      threeSymbolsImage.withoutUndefined =
        [1, 0, 0, 0, 0x0E, 1, 0, 0, 0x10, 0, 0, 0] ++ [5, 0, 0, 0, 0x0F, 1, 0, 0, 0x20, 0, 0, 0] ∧
      threeSymbolsImage.newSymbolTable ≠ threeSymbolsImage.withoutUndefined := by
  decide

end OpenCore.LinkEdit
