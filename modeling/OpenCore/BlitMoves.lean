import OpenCore.BlitImages

/-!
The loops of the blit functions as lists of moves: on a rectangle that is on the screen each
function stores every pixel of the rectangle to its image, by whole rows, by columns or by
blocks, and nothing else.
-/

namespace OpenCore.BlitMoves

open Base BlitVideo BlitImages List

section Loops

variable {step delta destination source : Uintn} {blockWidth : Nat}

theorem rows_eq (row : Uintn → Uintn → List Event) (step delta : Uintn) (height : Nat)
    (destination source : Uintn) :
    rows row step delta height destination source = (List.range height).flatMap fun y =>
        row (destination + BitVec.ofNat 64 y * step) (source + BitVec.ofNat 64 y * delta) := by
  induction height generalizing destination source with
  | zero => rfl
  | succ height ih =>
    have next (y : Nat) (place step : BitVec 64) :
        place + step + BitVec.ofNat 64 y * step = place + BitVec.ofNat 64 (y + 1) * step := by
      rw [BitVec.ofNat_add, show BitVec.ofNat 64 1 = 1 from rfl]
      ring
    rw [rows, ih, range_succ_eq_map, flatMap_cons, flatMap_map]
    simp only [next]
    simp

variable {conf : Configure} {blit : Blit} {colour : Nat → Nat → Pixel}

theorem moves_of_rows {row : Uintn → Uintn → List Event}
    (only : ∀ y < blit.height.toNat, ∀ event ∈ row (destination + BitVec.ofNat 64 y * step)
        (source + BitVec.ofNat 64 y * delta), (∃ index < conf.width.toNat, event = .line index) ∨
        ∃ x < blit.width.toNat, event = paint conf blit colour x y)
    (all : ∀ y < blit.height.toNat, ∀ x < blit.width.toNat,
      paint conf blit colour x y ∈ row (destination + BitVec.ofNat 64 y * step)
        (source + BitVec.ofNat 64 y * delta)) :
    Moves conf blit colour (rows row step delta blit.height.toNat destination source) := by
  rw [rows_eq]
  constructor
  · intro event member
    obtain ⟨y, top, inRow⟩ := mem_flatMap.mp member
    rcases only y (mem_range.mp top) event inRow with line | ⟨x, left, same⟩
    · exact .inl line
    · exact .inr ⟨x, left, y, mem_range.mp top, same⟩
  · intro x left y top
    exact mem_flatMap.mpr ⟨y, mem_range.mpr top, all y top x left⟩

/-- A loop over the pixels of a row, the `index`-th of which is that at `turn index`. -/
theorem moves_of_columns {pixel : Nat → Uintn → Uintn → Event} (turn : Nat → Nat)
    (turned : ∀ x < blit.width.toNat, turn x < blit.width.toNat ∧ turn (turn x) = x)
    (same : ∀ y < blit.height.toNat, ∀ x < blit.width.toNat,
      pixel x (destination + BitVec.ofNat 64 y * step) (source + BitVec.ofNat 64 y * delta) =
        paint conf blit colour (turn x) y) :
    Moves conf blit colour
      (rows (fun destination source =>
        (List.range blit.width.toNat).map fun x => pixel x destination source)
        step delta blit.height.toNat destination source) := by
  apply moves_of_rows
  · intro y top event member
    obtain ⟨x, left, rfl⟩ := mem_map.mp member
    have left := mem_range.mp left
    exact .inr ⟨turn x, (turned x left).1, same y top x left⟩
  · intro y top x left
    obtain ⟨left', back⟩ := turned x left
    refine mem_map.mpr ⟨turn x, mem_range.mpr left', ?_⟩
    rw [same y top _ left', back]

theorem mem_blockStarts {blockWidth size index : Nat} (positive : 0 < blockWidth)
    (aligned : blockWidth ∣ size) :
    index ∈ blockStarts blockWidth size ↔ blockWidth ∣ index ∧ index < size := by
  obtain ⟨count, rfl⟩ := aligned
  have whole : (blockWidth * count + blockWidth - 1) / blockWidth = count := by
    rw [Nat.add_sub_assoc positive, Nat.mul_add_div positive,
      Nat.div_eq_of_lt (Nat.sub_lt positive Nat.one_pos), add_zero]
  rw [blockStarts, whole, mem_map]
  constructor
  · rintro ⟨block, below, rfl⟩
    exact ⟨Nat.dvd_mul_right .., Nat.mul_lt_mul_of_pos_left (mem_range.mp below) positive⟩
  · rintro ⟨⟨block, rfl⟩, below⟩
    exact ⟨block, mem_range.mpr (Nat.lt_of_mul_lt_mul_left below), rfl⟩

theorem block_inside {blockWidth size index inner : Nat} (aligned : blockWidth ∣ size)
    (start : blockWidth ∣ index) (below : index < size) (within : inner < blockWidth) :
    index + inner < size := by
  obtain ⟨count, rfl⟩ := aligned
  obtain ⟨block, rfl⟩ := start
  have next : block + 1 ≤ count := Nat.lt_of_mul_lt_mul_left below
  have whole := Nat.mul_le_mul_left blockWidth next
  rw [mul_add, mul_one] at whole
  omega

theorem moves_of_blocks {move : Nat → Nat → Nat → Nat → Event}
    (positive : 0 < blockWidth) (columns : blockWidth ∣ blit.width.toNat)
    (lines : blockWidth ∣ blit.height.toNat)
    (same : ∀ index index2 blockIndex blockIndex2, index + blockIndex < blit.height.toNat →
      index2 + blockIndex2 < blit.width.toNat → move index index2 blockIndex blockIndex2 =
          paint conf blit colour (index2 + blockIndex2) (index + blockIndex)) :
    Moves conf blit colour (blocks blockWidth blit.width.toNat blit.height.toNat move) := by
  constructor
  · intro event member
    obtain ⟨index, start, member⟩ := mem_flatMap.mp member
    obtain ⟨index2, start2, member⟩ := mem_flatMap.mp member
    obtain ⟨blockIndex, within, member⟩ := mem_flatMap.mp member
    obtain ⟨blockIndex2, within2, rfl⟩ := mem_map.mp member
    obtain ⟨divides, below⟩ := (mem_blockStarts positive lines).mp start
    obtain ⟨divides2, below2⟩ := (mem_blockStarts positive columns).mp start2
    have top := block_inside lines divides below (mem_range.mp within)
    have left := block_inside columns divides2 below2 (mem_range.mp within2)
    exact .inr ⟨_, left, _, top, same _ _ _ _ top left⟩
  · intro x left y top
    have rowSplit := Nat.div_add_mod y blockWidth
    have columnSplit := Nat.div_add_mod x blockWidth
    refine mem_flatMap.mpr ⟨blockWidth * (y / blockWidth), ?_, mem_flatMap.mpr
      ⟨blockWidth * (x / blockWidth), ?_, mem_flatMap.mpr ⟨y % blockWidth, ?_,
        mem_map.mpr ⟨x % blockWidth, ?_, ?_⟩⟩⟩⟩
    · exact (mem_blockStarts positive lines).mpr ⟨Nat.dvd_mul_right .., by omega⟩
    · exact (mem_blockStarts positive columns).mpr ⟨Nat.dvd_mul_right .., by omega⟩
    · exact mem_range.mpr (Nat.mod_lt y positive)
    · exact mem_range.mpr (Nat.mod_lt x positive)
    · rw [same _ _ _ _ (by omega) (by omega), columnSplit, rowSplit]

theorem or_mod {left right power : Nat} (zero : (left ||| right) % 2 ^ power = 0) :
    left % 2 ^ power = 0 ∧ right % 2 ^ power = 0 := by
  rw [Nat.or_mod_two_pow] at zero
  exact Nat.or_eq_zero_iff.mp zero

theorem blockWidth_divides {pixelsPerScanLine : BitVec 32}
    (chosen : blit.blockWidth pixelsPerScanLine = some blockWidth) :
    0 < blockWidth ∧ blockWidth ∣ blit.width.toNat ∧ blockWidth ∣ blit.height.toNat := by
  obtain ⟨power, rfl, small, aligned⟩ : ∃ power, blockWidth = 2 ^ power ∧ power ≤ 4 ∧
      (blit.sourceX.toNat % u32 ||| blit.sourceY.toNat % u32 |||
        blit.destinationX.toNat % u32 ||| blit.destinationY.toNat % u32 |||
        blit.width.toNat % u32 ||| blit.height.toNat % u32 ||| blit.delta.toNat % u32 |||
        pixelsPerScanLine.toNat) % 2 ^ power = 0 := by
    unfold Blit.blockWidth at chosen
    dsimp only at chosen
    generalize (blit.sourceX.toNat % u32 ||| _) = sizes at chosen ⊢
    split at chosen <;> cases chosen
    · exact ⟨4, rfl, by decide, by omega⟩
    · exact ⟨3, rfl, by decide, by omega⟩
    · exact ⟨2, rfl, by decide, by omega⟩
    · exact ⟨1, rfl, by decide, by omega⟩
  have divides {size : Nat} (low : size % u32 % 2 ^ power = 0) : 2 ^ power ∣ size := by
    have whole : 2 ^ power ∣ u32 := Nat.pow_dvd_pow 2 (show power ≤ 32 by omega)
    rw [Nat.mod_mod_of_dvd size whole] at low
    exact Nat.dvd_of_mod_eq_zero low
  have heights := (or_mod (or_mod (or_mod aligned).1).1).2
  have widths := (or_mod (or_mod (or_mod (or_mod aligned).1).1).1).2
  exact ⟨Nat.two_pow_pos power, divides widths, divides heights⟩

end Loops

section Places

variable {conf : Configure}

theorem ofNat_sub {whole part : Nat} (below : part < whole) :
    BitVec.ofNat 64 (whole - 1 - part) = BitVec.ofNat 64 whole - 1 - BitVec.ofNat 64 part := by
  obtain ⟨rest, rfl⟩ : ∃ rest, whole = rest + 1 + part := ⟨whole - 1 - part, by omega⟩
  have left : rest + 1 + part - 1 - part = rest := by omega
  rw [left, BitVec.ofNat_add, BitVec.ofNat_add, show BitVec.ofNat 64 1 = 1 from rfl]
  ring

theorem ofNat_coordinate (start : Uintn) (index : Nat) :
    BitVec.ofNat 64 (start.toNat + index) = start + BitVec.ofNat 64 index := by
  rw [BitVec.ofNat_add, BitVec.ofNat_toNat, BitVec.setWidth_eq]

theorem ofNat_size (size : BitVec 32) : BitVec.ofNat 64 size.toNat = size.setWidth 64 :=
  BitVec.ofNat_toNat ..

theorem ofNat_image0 (turned : conf.rotation = 0) (x y : Nat) :
    BitVec.ofNat 64 (image conf x y) = BitVec.ofNat 64 y * conf.scanLine + BitVec.ofNat 64 x := by
  have value : image conf x y = y * conf.pixelsPerScanLine.toNat + x := by
    simp only [image, turned]
  rw [value, BitVec.ofNat_add, BitVec.ofNat_mul, ofNat_size]
  rfl

theorem ofNat_image90 (turned : conf.rotation = 90) (x : Nat) {y : Nat}
    (below : y < conf.width.toNat) :
    BitVec.ofNat 64 (image conf x y) = BitVec.ofNat 64 x * conf.scanLine +
      (conf.width.setWidth 64 - 1 - BitVec.ofNat 64 y) := by
  have value : image conf x y = x * conf.pixelsPerScanLine.toNat + (conf.width.toNat - 1 - y) := by
    simp only [image, turned]
  rw [value, BitVec.ofNat_add, BitVec.ofNat_mul, ofNat_sub below, ofNat_size, ofNat_size]
  rfl

theorem ofNat_image180 (turned : conf.rotation = 180) {x y : Nat}
    (left : x < conf.width.toNat) (below : y < conf.height.toNat) :
    BitVec.ofNat 64 (image conf x y) =
      (conf.height.setWidth 64 - 1 - BitVec.ofNat 64 y) * conf.scanLine +
        (conf.width.setWidth 64 - 1 - BitVec.ofNat 64 x) := by
  have value : image conf x y = (conf.height.toNat - 1 - y) *
      conf.pixelsPerScanLine.toNat + (conf.width.toNat - 1 - x) := by
    simp only [image, turned]
  rw [value, BitVec.ofNat_add, BitVec.ofNat_mul, ofNat_sub left, ofNat_sub below, ofNat_size,
    ofNat_size, ofNat_size]
  rfl

theorem ofNat_image270 (turned : conf.rotation = 270) {x : Nat} (y : Nat)
    (left : x < conf.height.toNat) :
    BitVec.ofNat 64 (image conf x y) =
      (conf.height.setWidth 64 - 1 - BitVec.ofNat 64 x) * conf.scanLine + BitVec.ofNat 64 y := by
  have value : image conf x y = (conf.height.toNat - 1 - x) *
      conf.pixelsPerScanLine.toNat + y := by
    simp only [image, turned]
  rw [value, BitVec.ofNat_add, BitVec.ofNat_mul, ofNat_sub left, ofNat_size, ofNat_size]
  rfl

variable {blit : Blit} {colour : Nat → Nat → Pixel}

theorem store_eq_paint {place : Uintn} {pixel : Pixel} {x y : Nat}
    (at_image : place = BitVec.ofNat 64
      (image conf (blit.destinationX.toNat + x) (blit.destinationY.toNat + y)))
    (coloured : pixel = colour x y) : store place pixel = paint conf blit colour x y := by
  subst at_image coloured
  rw [store, paint, target, BitVec.ofNat_mul]
  rfl

end Places

section Paths

variable {conf : Configure} (bltBuffer : Uintn → Pixel) {blit : Blit}
variable {place : Uintn} {x y : Nat}

def sourceColour (conf : Configure) (bltBuffer : Uintn → Pixel) (blit : Blit) (x y : Nat) :
    Pixel :=
  let pixel := fetch bltBuffer ((blit.sourceY + BitVec.ofNat 64 y) * blit.delta +
    (blit.sourceX + BitVec.ofNat 64 x))
  if conf.pixelFormat = .blueGreenRedReserved8BitPerColor then pixel
  else conf.convert pixel

structure Fits (conf : Configure) (blit : Blit) : Prop where
  columns : blit.destinationX.toNat + blit.width.toNat ≤ conf.rotatedWidth.toNat
  lines : blit.destinationY.toNat + blit.height.toNat ≤ conf.rotatedHeight.toNat

theorem Fits.onScreen (fits : Fits conf blit) (left : x < blit.width.toNat)
    (top : y < blit.height.toNat) :
    OnScreen conf (blit.destinationX.toNat + x) (blit.destinationY.toNat + y) := by
  obtain ⟨columns, lines⟩ := fits
  exact ⟨by omega, by omega⟩

theorem pixelsIn_width (small : blit.width.toNat < 2 ^ 32) :
    pixelsIn (blit.width * 4) = blit.width.toNat := by
  rw [pixelsIn, BitVec.toNat_mul, show (4 : BitVec 64).toNat = 4 from rfl, bytesPerPixel]
  omega

theorem mem_storeAll {count : Nat} {pixel : Nat → Pixel} {event : Event} :
    event ∈ storeAll place count pixel ↔
      ∃ index < count, event = store (place + BitVec.ofNat 64 index) (pixel index) := by
  simp [storeAll, eq_comm]

theorem blitLibBufferToVideo0_moves (accepted : Accepted conf) (fits : Fits conf blit)
    (turned : conf.rotation = 0) :
    Moves conf blit (sourceColour conf bltBuffer blit)
      (blitLibBufferToVideo0 conf bltBuffer blit) := by
  have columns := fits.columns
  have wide : conf.rotatedWidth.toNat < 2 ^ 32 := conf.rotatedWidth.isLt
  have same : conf.rotatedWidth = conf.width := by
    rw [accepted.rotatedWidth, turned]
    rfl
  have count : pixelsIn (blit.width * 4) = blit.width.toNat := pixelsIn_width (by omega)
  have place (x y : Nat) : blit.destinationY * conf.scanLine + blit.destinationX +
      BitVec.ofNat 64 y * conf.scanLine + BitVec.ofNat 64 x = BitVec.ofNat 64
          (image conf (blit.destinationX.toNat + x) (blit.destinationY.toNat + y)) := by
    rw [ofNat_image0 turned, ofNat_coordinate, ofNat_coordinate]
    ring
  have source (x y : Nat) : blit.sourceY * blit.delta + blit.sourceX +
      BitVec.ofNat 64 y * blit.delta + BitVec.ofNat 64 x =
        (blit.sourceY + BitVec.ofNat 64 y) * blit.delta + (blit.sourceX + BitVec.ofNat 64 x) := by
    ring
  unfold blitLibBufferToVideo0
  dsimp only
  rw [count]
  by_cases plain : conf.pixelFormat = .blueGreenRedReserved8BitPerColor
  · rw [if_pos plain]
    refine moves_of_columns id (fun x left => ⟨left, rfl⟩) fun y top x left => ?_
    refine store_eq_paint (place x y) ?_
    dsimp only [id_eq]
    rw [source, sourceColour, if_pos plain]
  · rw [if_neg plain]
    have stored (y x : Nat) : store (blit.destinationY * conf.scanLine + blit.destinationX +
          BitVec.ofNat 64 y * conf.scanLine + BitVec.ofNat 64 x)
        (conf.convert (fetch bltBuffer (blit.sourceY * blit.delta + blit.sourceX +
          BitVec.ofNat 64 y * blit.delta + BitVec.ofNat 64 x))) =
          paint conf blit (sourceColour conf bltBuffer blit) x y := by
      refine store_eq_paint (place x y) ?_
      rw [source, sourceColour, if_neg plain]
    apply moves_of_rows
    · intro y top event member
      rcases mem_append.mp member with line | drawn
      · obtain ⟨index, within, rfl⟩ := mem_map.mp line
        have below := mem_range.mp within
        rw [same] at columns
        exact .inl ⟨index, by omega, rfl⟩
      · obtain ⟨x, left, rfl⟩ := mem_storeAll.mp drawn
        exact .inr ⟨x, left, stored y x⟩
    · intro y top x left
      exact mem_append_right _ (mem_storeAll.mpr ⟨x, left, (stored y x).symm⟩)

def shownColour (conf : Configure) (bltBuffer : Uintn → Pixel) (place : Uintn) : Pixel :=
  if conf.pixelFormat = .blueGreenRedReserved8BitPerColor then fetch bltBuffer place
  else conf.convert (fetch bltBuffer place)

theorem shownColour_plain (plain : conf.pixelFormat = .blueGreenRedReserved8BitPerColor) :
    fetch bltBuffer = shownColour conf bltBuffer := by
  funext place
  rw [shownColour, if_pos plain]

theorem shownColour_converted (converted : conf.pixelFormat ≠ .blueGreenRedReserved8BitPerColor) :
    (fun place => conf.convert (fetch bltBuffer place)) = shownColour conf bltBuffer := by
  funext place
  rw [shownColour, if_neg converted]

theorem shownColour_source (at_source : place = (blit.sourceY + BitVec.ofNat 64 y) * blit.delta +
      (blit.sourceX + BitVec.ofNat 64 x)) :
    shownColour conf bltBuffer place = sourceColour conf bltBuffer blit x y := by
  rw [at_source, shownColour, sourceColour]

theorem blitLibBufferToVideo90_moves (accepted : Accepted conf) (fits : Fits conf blit)
    (turned : conf.rotation = 90) :
    Moves conf blit (sourceColour conf bltBuffer blit)
      (blitLibBufferToVideo90 conf bltBuffer blit) := by
  have same : conf.rotatedHeight = conf.width := by
    rw [accepted.rotatedHeight, turned]
    rfl
  have lines := fits.lines
  have columns := fits.columns
  have wide : conf.rotatedWidth.toNat < 2 ^ 32 := conf.rotatedWidth.isLt
  rw [same] at lines
  have place {x y : Nat} (top : y < blit.height.toNat) :
      BitVec.ofNat 64
          (image conf (blit.destinationX.toNat + x) (blit.destinationY.toNat + y)) =
        (blit.destinationX + BitVec.ofNat 64 x) * conf.scanLine +
          (conf.width.setWidth 64 - 1 - (blit.destinationY + BitVec.ofNat 64 y)) := by
    rw [ofNat_image90 turned _ (by omega), ofNat_coordinate, ofNat_coordinate]
  have count : (blit.destinationX + blit.width).toNat - blit.destinationX.toNat =
      blit.width.toNat := by
    rw [BitVec.toNat_add, Nat.mod_eq_of_lt (by omega), Nat.add_sub_cancel_left]
  have columnwise : Moves conf blit (sourceColour conf bltBuffer blit)
      (rows (column90 blit.destinationX conf.scanLine blit.width.toNat
        (shownColour conf bltBuffer)) (-1) blit.delta blit.height.toNat
        (conf.width.setWidth 64 - blit.destinationY - 1)
        (blit.sourceY * blit.delta + blit.sourceX)) := by
    refine moves_of_columns id (fun x left => ⟨left, rfl⟩) fun y top x left => ?_
    refine store_eq_paint ?_ (shownColour_source bltBuffer ?_)
    · rw [id_eq, place top]
      ring
    · rw [id_eq]
      ring
  unfold blitLibBufferToVideo90
  dsimp only
  rw [count]
  by_cases plain : conf.pixelFormat = .blueGreenRedReserved8BitPerColor
  · rw [if_pos plain, shownColour_plain bltBuffer plain]
    rcases chosen : blit.blockWidth conf.pixelsPerScanLine with _ | blockWidth
    · exact columnwise
    · obtain ⟨positive, divides, divides'⟩ := blockWidth_divides chosen
      refine moves_of_blocks positive divides divides' ?_
      intro index index2 blockIndex blockIndex2 top left
      refine store_eq_paint ?_ (shownColour_source bltBuffer ?_)
      · rw [place top, BitVec.ofNat_add, BitVec.ofNat_add]
        ring
      · rw [BitVec.ofNat_add, BitVec.ofNat_add]
        ring
  · rw [if_neg plain, shownColour_converted bltBuffer plain]
    exact columnwise

theorem ofNat_turned {size : Uintn} {index : Nat} (below : index < size.toNat) :
    BitVec.ofNat 64 (size.toNat - 1 - index) = size - 1 - BitVec.ofNat 64 index := by
  rw [ofNat_sub below, BitVec.ofNat_toNat, BitVec.setWidth_eq]

theorem blitLibBufferToVideo180_moves (accepted : Accepted conf) (fits : Fits conf blit)
    (turned : conf.rotation = 180) :
    Moves conf blit (sourceColour conf bltBuffer blit)
      (blitLibBufferToVideo180 conf bltBuffer blit) := by
  have sameWidth : conf.rotatedWidth = conf.width := by
    rw [accepted.rotatedWidth, turned]
    rfl
  have sameHeight : conf.rotatedHeight = conf.height := by
    rw [accepted.rotatedHeight, turned]
    rfl
  have columns := fits.columns
  have lines := fits.lines
  rw [sameWidth] at columns
  rw [sameHeight] at lines
  have rowwise : Moves conf blit (sourceColour conf bltBuffer blit)
      (rows (reversed180 blit.width (shownColour conf bltBuffer)) (-conf.scanLine)
        blit.delta blit.height.toNat
        ((conf.height.setWidth 64 - blit.destinationY - blit.height + (blit.height - 1)) *
          conf.scanLine + (conf.width.setWidth 64 - blit.destinationX - blit.width))
        (blit.sourceY * blit.delta + blit.sourceX)) := by
    refine moves_of_columns (fun x => blit.width.toNat - 1 - x) (fun x left => ?_)
      fun y top x left => ?_
    · omega
    · have reversed := ofNat_turned left
      refine store_eq_paint ?_ (shownColour_source bltBuffer ?_)
      · rw [ofNat_image180 turned (by omega) (by omega), ofNat_coordinate, ofNat_coordinate,
          reversed]
        ring
      · rw [reversed]
        ring
  unfold blitLibBufferToVideo180
  dsimp only
  by_cases plain : conf.pixelFormat = .blueGreenRedReserved8BitPerColor
  · rw [if_pos plain, shownColour_plain bltBuffer plain]
    exact rowwise
  · rw [if_neg plain, shownColour_converted bltBuffer plain]
    exact rowwise

/-- The pixels are moved right, but for the rows of a converted rectangle behind the first. -/
theorem blitLibBufferToVideo270_moves (accepted : Accepted conf) (fits : Fits conf blit)
    (turned : conf.rotation = 270)
    (single : conf.pixelFormat = .blueGreenRedReserved8BitPerColor ∨ blit.height.toNat ≤ 1) :
    Moves conf blit (sourceColour conf bltBuffer blit)
      (blitLibBufferToVideo270 conf bltBuffer blit) := by
  have same : conf.rotatedWidth = conf.height := by
    rw [accepted.rotatedWidth, turned]
    rfl
  have columns := fits.columns
  rw [same] at columns
  have place {x : Nat} (y : Nat) (left : x < blit.width.toNat) :
      BitVec.ofNat 64
          (image conf (blit.destinationX.toNat + x) (blit.destinationY.toNat + y)) =
        (conf.height.setWidth 64 - 1 - (blit.destinationX + BitVec.ofNat 64 x)) *
          conf.scanLine + (blit.destinationY + BitVec.ofNat 64 y) := by
    rw [ofNat_image270 turned _ (by omega), ofNat_coordinate, ofNat_coordinate]
  have columnwise (step : Uintn) (steps : ∀ y < blit.height.toNat,
      BitVec.ofNat 64 y * step = BitVec.ofNat 64 y) :
      Moves conf blit (sourceColour conf bltBuffer blit)
        (rows (column270 (conf.height.setWidth 64 - blit.destinationX - 1)
          conf.scanLine blit.width (shownColour conf bltBuffer)) step blit.delta
          blit.height.toNat blit.destinationY (blit.sourceY * blit.delta + blit.sourceX)) := by
    refine moves_of_columns id (fun x left => ⟨left, rfl⟩) fun y top x left => ?_
    refine store_eq_paint ?_ (shownColour_source bltBuffer ?_)
    · rw [id_eq, place y left, steps y top]
      ring
    · rw [id_eq]
      ring
  unfold blitLibBufferToVideo270
  dsimp only
  by_cases plain : conf.pixelFormat = .blueGreenRedReserved8BitPerColor
  · rw [if_pos plain, shownColour_plain bltBuffer plain]
    rcases chosen : blit.blockWidth conf.pixelsPerScanLine with _ | blockWidth
    · exact columnwise 1 fun y _ => BitVec.mul_one _
    · obtain ⟨positive, divides, divides'⟩ := blockWidth_divides chosen
      refine moves_of_blocks positive divides divides' ?_
      intro index index2 blockIndex blockIndex2 top left
      refine store_eq_paint ?_ (shownColour_source bltBuffer ?_)
      · rw [place _ left, BitVec.ofNat_add, BitVec.ofNat_add]
        ring
      · rw [BitVec.ofNat_add, BitVec.ofNat_add]
        ring
  · have few := single.resolve_left plain
    rw [if_neg plain, shownColour_converted bltBuffer plain]
    refine columnwise (-1) fun y top => ?_
    obtain rfl : y = 0 := by omega
    rfl

end Paths

end OpenCore.BlitMoves
