import OpenCore.MkextInject
import OpenCore.MkextDecompressSafety

/-!
Where an injected kext goes. In version 1 its files are placed behind the end of
the mkext and its slot behind the last one; in version 2 its executable is laid
over the old plist. Everything apart from these bytes is kept.
-/

namespace OpenCore.MkextPlacement

open Base ByteBuffer BigEndian ByteSlices MkextFormat MkextState MkextInject MkextDecompress

def SameAt (before after : Bytes) (offset size : Nat) : Prop :=
  slice after offset size = slice before offset size

variable {offset size inner : Nat}

theorem SameAt.word {before after : Bytes}
    (same : SameAt before after offset size) (within : inner + 4 ≤ size) :
    word after (offset + inner) = word before (offset + inner) := by
  rw [ByteSlices.word, ByteSlices.word, ← slice_slice within, ← slice_slice within, same]

theorem SameAt.kextFile {before after : Bytes}
    (same : SameAt before after offset size) (within : inner + v1FileSize ≤ size) :
    kextFile after (offset + inner) = kextFile before (offset + inner) := by
  rw [v1FileSize] at within
  simp only [MkextFormat.kextFile, add_assoc]
  rw [same.word (by omega), same.word (by omega), same.word (by omega), same.word (by omega)]

theorem sameAt_overlay {buffer data : Bytes} {offset size target : Nat}
    (inside : target + data.length ≤ buffer.length) (apart : Apart offset size target data.length) :
    SameAt buffer (overlay buffer target data) offset size :=
  slice_overlay_apart inside apart

theorem SameAt.trans {first second third : Bytes} {offset size : Nat}
    (front : SameAt first second offset size) (back : SameAt second third offset size) :
    SameAt first third offset size :=
  Eq.trans back front

theorem length_slotFile (offset fullSize : Nat) : (slotFile offset fullSize).length = v1FileSize := by
  simp [slotFile, v1FileSize]

theorem kextFile_slotFile {buffer : Bytes} {field offset fullSize : Nat}
    (inside : field + v1FileSize ≤ buffer.length) (narrow : offset < u32) (small : fullSize < u32) :
    kextFile (overlay buffer field (slotFile offset fullSize)) field = ⟨offset, 0, fullSize, 0⟩ := by
  have length := length_slotFile offset fullSize
  have read := @slice_overlay_same buffer (slotFile offset fullSize) field (by rw [length]; exact inside)
  rw [length, v1FileSize] at read
  have parts : ∀ inner, inner + 4 ≤ 16 →
      word (overlay buffer field (slotFile offset fullSize)) (field + inner) =
        bigEndian (slice (slotFile offset fullSize) inner 4) := by
    intro inner within
    rw [ByteSlices.word, ← slice_slice within, read]
  have first := parts 0 (by omega)
  rw [add_zero] at first
  have values : ∀ value, value < u32 → bigEndian (toBigEndian 4 value) = value :=
    fun value fits => bigEndian_toBigEndian fits
  have length4 : ∀ value, (toBigEndian 4 value).length = 4 := length_toBigEndian 4
  have pieces : slice (slotFile offset fullSize) 0 4 = toBigEndian 4 offset ∧
      slice (slotFile offset fullSize) 4 4 = toBigEndian 4 0 ∧
      slice (slotFile offset fullSize) 8 4 = toBigEndian 4 fullSize ∧
      slice (slotFile offset fullSize) 12 4 = toBigEndian 4 0 := by
    have gone : ∀ value count, 4 ≤ count → (toBigEndian 4 value).drop count = [] :=
      fun value count enough => List.drop_eq_nil_of_le (by rw [length4]; exact enough)
    have whole : ∀ value, (toBigEndian 4 value).take 4 = toBigEndian 4 value :=
      fun value => List.take_of_length_le (by rw [length4])
    simp [slice, slotFile, List.drop_append, length4, gone, whole]
  rw [MkextFormat.kextFile, first, parts 4 (by omega), parts 8 (by omega), parts 12 (by omega),
    pieces.1, pieces.2.1, pieces.2.2.1, pieces.2.2.2, values _ narrow, values _ small,
    values 0 (by decide)]

theorem v1KextOffset_le {index count : Nat} (before : index < count) :
    v1KextOffset index + v1KextSize ≤ v1KextOffset count := by
  simp only [v1KextOffset, v1KextSize]
  omega

structure PlacedV1 (ctx after : MkextContext) (injection : Injection) (plistEnd : Nat)
    (executable : Option (Nat × Bytes)) (binOffset binSize newSize : Nat) : Prop where
  free : ctx.numKexts < ctx.numMaxKexts
  plist : plistEnd = ctx.mkextSize + mkextAlign injection.infoPlist.length
  small : injection.infoPlist.length < u32
  after : after = placeV1 ctx injection.infoPlist executable newSize
  inside : newSize ≤ ctx.mkext.length
  stored : executable = none ∧ injection.executable = none ∧ binOffset = 0 ∧ binSize = 0 ∧
      newSize = plistEnd ∨
    ∃ binary, executable = some (plistEnd, binary) ∧ injection.executable ≠ none ∧
      binOffset = plistEnd ∧ binSize = binary.length ∧ binary.length < u32 ∧
      newSize = plistEnd + mkextAlign binary.length

theorem lt_of_mkextAlign32 {size : Nat} (kept : ¬ mkextAlign32 size < size) : size < u32 := by
  have bound : mkextAlign32 size < u32 := Nat.mod_lt _ (by decide)
  omega

theorem mkextAlign32_of_kept {size : Nat} (kept : ¬ mkextAlign32 size < size) :
    mkextAlign32 size = mkextAlign size :=
  mkextAlign32_eq (roundable_of_le (lt_of_mkextAlign32 kept) (Nat.le_of_not_lt kept))

theorem injectV1_placed {env : KextExternals} {ctx after : MkextContext}
    {injection : Injection} {binOffset binSize : Nat}
    (injected : injectV1 env ctx injection = .ok (after, binOffset, binSize)) :
    ∃ plistEnd executable newSize,
      PlacedV1 ctx after injection plistEnd executable binOffset binSize newSize := by
  unfold injectV1 at injected
  simp only at injected
  split at injected
  · cases injected
  next free =>
    split at injected
    · cases injected
    next kept =>
      split at injected
      · cases injected
      next plistEnd added =>
        obtain ⟨plist, -⟩ := baseOverflowAdd_eq_some added
        rw [mkextAlign32_of_kept kept] at plist
        split at injected
        · cases injected
        next inside =>
          split at injected
          next absent =>
            simp only [Except.ok.injEq, Prod.mk.injEq] at injected
            obtain ⟨rfl, rfl, rfl⟩ := injected
            exact ⟨plistEnd, none, plistEnd, Nat.lt_of_not_le free, plist, lt_of_mkextAlign32 kept, rfl,
              Nat.le_of_not_lt inside, .inl ⟨rfl, absent, rfl, rfl, rfl⟩⟩
          next executable present =>
            split at injected
            · cases injected
            next binary parsed =>
              split at injected
              · cases injected
              next newSize added' =>
                obtain ⟨size, -⟩ := baseOverflowAdd_eq_some added'
                split at injected
                · cases injected
                next kept' =>
                  rw [mkextAlign32_of_kept kept'] at size
                  split at injected
                  · cases injected
                  next inside' =>
                    simp only [Except.ok.injEq, Prod.mk.injEq] at injected
                    obtain ⟨rfl, rfl, rfl⟩ := injected
                    have given : injection.executable ≠ none := by
                      rw [present]
                      exact Option.some_ne_none executable
                    have small' := lt_of_mkextAlign32 kept'
                    exact ⟨plistEnd, some (plistEnd, binary), newSize, Nat.lt_of_not_le free, plist,
                      lt_of_mkextAlign32 kept, rfl, Nat.le_of_not_lt inside',
                      .inr ⟨binary, rfl, given, rfl, rfl, small', size⟩⟩

section PlacedV1

variable {ctx after : MkextContext} {injection : Injection} {plistEnd : Nat}
  {executable : Option (Nat × Bytes)} {binOffset binSize newSize : Nat}

def TableInside (ctx : MkextContext) : Prop :=
  v1KextOffset ctx.numMaxKexts ≤ ctx.mkextSize

theorem PlacedV1.binary (placed : PlacedV1 ctx after injection plistEnd executable binOffset
    binSize newSize) : ∀ stored ∈ executable,
      stored.1 = plistEnd ∧ stored.2.length < u32 ∧ stored.1 + stored.2.length ≤ newSize := by
  rintro ⟨offset, binary⟩ member
  rcases placed.stored with ⟨absent, -⟩ | ⟨binary', present, -, -, -, small, size⟩
  · rw [absent] at member
    cases member
  · rw [present] at member
    cases member
    have grown := mkextAlign_ge binary.length
    exact ⟨rfl, small, by simp only; omega⟩

theorem PlacedV1.ends (placed : PlacedV1 ctx after injection plistEnd executable binOffset
    binSize newSize) : ctx.mkextSize + injection.infoPlist.length ≤ plistEnd ∧
      plistEnd ≤ newSize := by
  have grown := mkextAlign_ge injection.infoPlist.length
  have plist := placed.plist
  rcases placed.stored with ⟨-, -, -, -, size⟩ | ⟨binary, -, -, -, -, -, size⟩
  · omega
  · omega

theorem placeV1_mkext (ctx : MkextContext) (infoPlist : Bytes) (executable : Option (Nat × Bytes))
    (newSize : Nat) : (placeV1 ctx infoPlist executable newSize).mkext =
      overlay (overlay (placeBinary ctx.mkext (v1KextOffset ctx.numKexts) executable)
        ctx.mkextSize infoPlist) (v1KextOffset ctx.numKexts)
        (slotFile ctx.mkextSize infoPlist.length) := rfl

theorem placeV1_fields (ctx : MkextContext) (infoPlist : Bytes)
    (executable : Option (Nat × Bytes)) (newSize : Nat) :
    (placeV1 ctx infoPlist executable newSize).mkextSize = newSize ∧
      (placeV1 ctx infoPlist executable newSize).numKexts = ctx.numKexts + 1 ∧
      (placeV1 ctx infoPlist executable newSize).numMaxKexts = ctx.numMaxKexts ∧
      (placeV1 ctx infoPlist executable newSize).mkextVersion = ctx.mkextVersion ∧
      (placeV1 ctx infoPlist executable newSize).cachedKexts = ctx.cachedKexts := by
  simp only [placeV1, and_self]

theorem placeBinary_length (mkext : Bytes) (slot : Nat) (executable : Option (Nat × Bytes)) :
    (placeBinary mkext slot executable).length = mkext.length := by
  cases executable with
  | none => rfl
  | some stored => rw [placeBinary, overlay_length, overlay_length]

theorem PlacedV1.length (placed : PlacedV1 ctx after injection plistEnd executable binOffset
    binSize newSize) : after.mkext.length = ctx.mkext.length := by
  rw [placed.after, placeV1_mkext, overlay_length, overlay_length, placeBinary_length]

theorem placeBinary_same {mkext : Bytes} {slot limit offset size : Nat}
    {executable : Option (Nat × Bytes)}
    (stored : ∀ stored ∈ executable, limit ≤ stored.1 ∧ stored.1 + stored.2.length ≤ mkext.length)
    (table : slot + v1KextSize ≤ limit) (within : limit ≤ mkext.length)
    (below : offset + size ≤ limit) (apart : Apart offset size (slot + v1FileSize) v1FileSize) :
    SameAt mkext (placeBinary mkext slot executable) offset size := by
  cases executable with
  | none => rfl
  | some entry =>
    obtain ⟨binOffset, binary⟩ := entry
    obtain ⟨behind, inside⟩ := stored _ rfl
    simp only at behind inside
    have fields : v1FileSize + v1FileSize = v1KextSize := rfl
    have first := @sameAt_overlay mkext binary offset size binOffset inside (.inl (by omega))
    refine first.trans (sameAt_overlay ?_ ?_)
    · rw [length_slotFile, overlay_length]
      omega
    · rw [length_slotFile]
      exact apart

section

variable (placed : PlacedV1 ctx after injection plistEnd executable binOffset binSize newSize)
  (table : TableInside ctx)
include placed table

theorem PlacedV1.slotInside :
    v1KextOffset ctx.numKexts + v1KextSize ≤ ctx.mkextSize :=
  (v1KextOffset_le placed.free).trans table

theorem PlacedV1.same {offset size : Nat} (below : offset + size ≤ ctx.mkextSize)
    (apart : Apart offset size (v1KextOffset ctx.numKexts) v1KextSize) :
    SameAt ctx.mkext after.mkext offset size := by
  have slot := placed.slotInside table
  have fields : v1FileSize + v1FileSize = v1KextSize := rfl
  obtain ⟨plist, ends⟩ := placed.ends
  have inside := placed.inside
  have binary : SameAt ctx.mkext (placeBinary ctx.mkext (v1KextOffset ctx.numKexts) executable)
      offset size := by
    apply placeBinary_same _ slot (by omega) below
    · rcases apart with before | behind
      · exact .inl (by omega)
      · exact .inr (by omega)
    · intro stored member
      obtain ⟨start, -, stop⟩ := placed.binary stored member
      omega
  rw [placed.after, placeV1_mkext]
  refine binary.trans (SameAt.trans (sameAt_overlay ?_ (.inl below)) (sameAt_overlay ?_ ?_))
  · rw [placeBinary_length]
    omega
  · rw [length_slotFile, overlay_length, placeBinary_length]
    omega
  · rw [length_slotFile]
    rcases apart with before | behind
    · exact .inl (by omega)
    · exact .inr (by omega)

theorem PlacedV1.plistFile (narrow : ctx.mkext.length < u32) :
    plistFile after.mkext ctx.numKexts = ⟨ctx.mkextSize, 0, injection.infoPlist.length, 0⟩ := by
  have slot := placed.slotInside table
  have fields : v1FileSize + v1FileSize = v1KextSize := rfl
  obtain ⟨plist, ends⟩ := placed.ends
  have inside := placed.inside
  have narrow' : ctx.mkextSize < u32 := by omega
  rw [placed.after, placeV1_mkext, MkextFormat.plistFile]
  refine kextFile_slotFile ?_ narrow' placed.small
  rw [overlay_length, placeBinary_length]
  omega

theorem PlacedV1.plistBytes :
    slice after.mkext ctx.mkextSize injection.infoPlist.length = injection.infoPlist := by
  have slot := placed.slotInside table
  have fields : v1FileSize + v1FileSize = v1KextSize := rfl
  obtain ⟨plist, ends⟩ := placed.ends
  have inside := placed.inside
  rw [placed.after, placeV1_mkext]
  rw [slice_overlay_apart, slice_overlay_same]
  · rw [placeBinary_length]
    omega
  · rw [length_slotFile, overlay_length, placeBinary_length]
    omega
  · rw [length_slotFile]
    exact .inr (by omega)

end

def storedFile (old : KextFile) : Option (Nat × Bytes) → KextFile
  | none => old
  | some (offset, binary) => ⟨offset, 0, binary.length, 0⟩

/-- The fields of the executable in the new slot are set when there is one, and
left as they were otherwise. -/
theorem PlacedV1.binaryFile (placed : PlacedV1 ctx after injection plistEnd executable binOffset
    binSize newSize) (table : TableInside ctx) (narrow : ctx.mkext.length < u32) :
    binaryFile after.mkext ctx.numKexts =
      storedFile (MkextFormat.binaryFile ctx.mkext ctx.numKexts) executable := by
  have slot := placed.slotInside table
  have fields : v1FileSize + v1FileSize = v1KextSize := rfl
  obtain ⟨plist, ends⟩ := placed.ends
  have inside := placed.inside
  -- Neither the plist nor its fields reach the second half of the slot.
  have half : SameAt (placeBinary ctx.mkext (v1KextOffset ctx.numKexts) executable) after.mkext
      (v1KextOffset ctx.numKexts + v1FileSize) v1FileSize := by
    rw [placed.after, placeV1_mkext]
    refine SameAt.trans (sameAt_overlay ?_ (.inl (by omega))) (sameAt_overlay ?_ ?_)
    · rw [placeBinary_length]
      omega
    · rw [length_slotFile, overlay_length, placeBinary_length]
      omega
    · rw [length_slotFile]
      exact .inr (le_refl _)
  have read := half.kextFile (zero_add v1FileSize).le
  rw [add_zero] at read
  rw [MkextFormat.binaryFile, read]
  cases executable with
  | none => rfl
  | some stored =>
    obtain ⟨offset, binary⟩ := stored
    obtain ⟨start, small, stop⟩ := placed.binary _ rfl
    simp only at start small stop
    have narrow' : offset < u32 := by omega
    simp only [placeBinary, storedFile]
    refine kextFile_slotFile ?_ narrow' small
    rw [overlay_length]
    omega

end PlacedV1

end OpenCore.MkextPlacement
