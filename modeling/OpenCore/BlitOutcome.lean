import OpenCore.BlitFills

/-!
When rendering paints its rectangle: whenever the sums of the coordinates do not wrap, but for
a converted rectangle of more than one row that is turned by 270 degrees, and for the one pixel
of a line of one pixel, which is filled with the low byte of its colour.
-/

namespace OpenCore.BlitOutcome

open BlitVideo BlitImages BlitMoves BlitFills

section Turned

variable {conf : Configure} {blit : Blit} {colour : Nat → Nat → Pixel}

/-- Every image of a rectangle that is turned by 270 degrees lies behind the start of the row
of its last column. -/
theorem le_image270 (turned : conf.rotation = 270) {x : Nat} (y : Nat)
    (left : x < blit.width.toNat) :
    (conf.height.toNat - blit.destinationX.toNat - blit.width.toNat) *
        conf.pixelsPerScanLine.toNat + blit.destinationY.toNat ≤
      image conf (blit.destinationX.toNat + x) (blit.destinationY.toNat + y) := by
  have row : conf.height.toNat - blit.destinationX.toNat - blit.width.toNat ≤
      conf.height.toNat - 1 - (blit.destinationX.toNat + x) := by omega
  have whole := Nat.mul_le_mul_right conf.pixelsPerScanLine.toNat row
  simp only [image, turned]
  omega

theorem blitLibBufferToVideo270_wrong (bltBuffer : Uintn → Pixel)
    (accepted : Accepted conf) (fits : Fits conf blit) (turned : conf.rotation = 270)
    (converted : conf.pixelFormat ≠ .blueGreenRedReserved8BitPerColor)
    (nonempty : 0 < blit.width.toNat) (two : 2 ≤ blit.height.toNat)
    (small : 4 * (conf.pixelsPerScanLine.toNat * conf.height.toNat) < 2 ^ 64) :
    ¬Paints conf blit colour (blitLibBufferToVideo270 conf bltBuffer blit) := by
  intro paints
  have columns := fits.columns
  rw [show conf.rotatedWidth = conf.height by
    rw [accepted.rotatedWidth, turned]; rfl] at columns
  generalize rowEq : conf.height.toNat - blit.destinationX.toNat - blit.width.toNat = row
  -- The last pixel of the second row, one in front of the first image of the rectangle.
  have behind : blit.destinationY + BitVec.ofNat 64 1 * (-1) +
      (conf.height.setWidth 64 - blit.destinationX - 1 -
        BitVec.ofNat 64 (blit.width.toNat - 1)) * conf.scanLine + 1 =
      BitVec.ofNat 64 (row * conf.pixelsPerScanLine.toNat + blit.destinationY.toNat) := by
    have height : conf.height.setWidth 64 = BitVec.ofNat 64 row + blit.destinationX + 1 +
        BitVec.ofNat 64 (blit.width.toNat - 1) := by
      have split : conf.height.toNat =
          row + blit.destinationX.toNat + 1 + (blit.width.toNat - 1) := by omega
      rw [← ofNat_size, split, BitVec.ofNat_add, BitVec.ofNat_add, BitVec.ofNat_add,
        BitVec.ofNat_toNat, BitVec.setWidth_eq]
      rfl
    rw [height, BitVec.ofNat_add, BitVec.ofNat_mul, ofNat_size, BitVec.ofNat_toNat,
      BitVec.setWidth_eq, Configure.scanLine, show BitVec.ofNat 64 1 = 1 from rfl]
    ring
  generalize place : blit.destinationY + BitVec.ofNat 64 1 * (-1) +
      (conf.height.setWidth 64 - blit.destinationX - 1 -
        BitVec.ofNat 64 (blit.width.toNat - 1)) * conf.scanLine = last at behind
  obtain ⟨pixel, stored⟩ : ∃ pixel, .frame (4 * last) pixel ∈
      blitLibBufferToVideo270 conf bltBuffer blit := by
    unfold blitLibBufferToVideo270
    dsimp only
    rw [if_neg converted, rows_eq, ← place]
    exact ⟨_, List.mem_flatMap.mpr ⟨1, List.mem_range.mpr two, List.mem_map.mpr
      ⟨blit.width.toNat - 1, List.mem_range.mpr (by omega), rfl⟩⟩⟩
  obtain ⟨x, left, y, top, same⟩ := paints.exactly _ _ stored
  have below := accepted.image_lt (fits.onScreen left top)
  have above := le_image270 turned y left
  rw [rowEq] at above
  unfold target at same
  have next : 4 * last + 4 = BitVec.ofNat 64
      (4 * (row * conf.pixelsPerScanLine.toNat + blit.destinationY.toNat)) := by
    rw [BitVec.ofNat_mul, ← behind, show BitVec.ofNat 64 4 = 4 from rfl]
    ring
  have values := congrArg BitVec.toNat next
  rw [BitVec.toNat_add, same, BitVec.toNat_ofNat, show (4 : BitVec 64).toNat = 4 from rfl,
    Nat.mod_eq_of_lt (by omega), Nat.mod_eq_of_lt (by omega)] at values
  omega

end Turned

section Fill

variable {conf : Configure} {blit : Blit} {pixel : Pixel}

/-- The one pixel of a region that is filled at once is given the low byte of its colour. -/
def FillsLowByte (conf : Configure) (blit : Blit) (pixel : Pixel) : Prop :=
  conf.pixelsPerScanLine = 1 ∧ blit.width = 1 ∧ blit.height = 1 ∧ lowByteFill pixel ≠ pixel

def filled (conf : Configure) (region : Region) (pixel : Pixel) : List Event :=
  if region.destinationX = 0 ∧ region.width = conf.scanLine then
    let offset := region.destinationY * conf.scanLine
    let sizeInBytes := (region.width * 4 * region.height).toNat
    let wide := if sizeInBytes ≥ 8 then sizeInBytes / 4 * 4 else 0
    storeAll offset (wide / bytesPerPixel) (fun _ => pixel) ++
      storeAll (offset + BitVec.ofNat 64 (wide / bytesPerPixel))
        ((sizeInBytes - wide) / bytesPerPixel) fun _ => lowByteFill pixel
  else
    fillLines conf region pixel
      ((region.height + region.destinationY).toNat - region.destinationY.toNat)
      region.destinationY false

theorem blitLibVideoFill_filled (color : Pixel)
    (taken : conf.rejects blit.destinationX blit.destinationY blit.width blit.height = false) :
    blitLibVideoFill conf color (Blit.region blit) =
      (.success, filled conf (conf.unrotate (Blit.region blit))
        (conf.convert color)) := by
  have passed : ¬conf.rejects blit.destinationX blit.destinationY blit.width blit.height =
      true := by
    rw [taken]
    decide
  refine (if_neg passed).trans ?_
  dsimp only
  generalize conf.unrotate (Blit.region blit) = region
  by_cases oneShot : region.destinationX = 0 ∧ region.width = conf.scanLine
  · rw [if_pos oneShot, filled, if_pos oneShot]
  · rw [if_neg oneShot, filled, if_neg oneShot]

theorem oneShot_size {region : Region} (whole : region.width = conf.scanLine)
    (height : region.height.toNat ≤ conf.height.toNat)
    (small : 4 * (conf.pixelsPerScanLine.toNat * conf.height.toNat) < 2 ^ 64) :
    (region.width * 4 * region.height).toNat = 4 * (region.width.toNat * region.height.toNat) := by
  have line : region.width.toNat = conf.pixelsPerScanLine.toNat := by
    rw [whole]
    exact BitVec.toNat_setWidth_of_le (by decide)
  have pixels := Nat.mul_le_mul_left conf.pixelsPerScanLine.toNat height
  rw [← line] at pixels small
  have narrow : region.width.toNat < 2 ^ 32 := line ▸ conf.pixelsPerScanLine.isLt
  rw [BitVec.toNat_mul, BitVec.toNat_mul, show (4 : BitVec 64).toNat = 4 from rfl,
    Nat.mod_eq_of_lt (show region.width.toNat * 4 < 2 ^ 64 by omega), Nat.mul_right_comm,
    Nat.mul_comm _ 4, Nat.mod_eq_of_lt (by omega)]

theorem Covers.filled {region : Region} (covers : Covers conf blit region)
    (nonempty : 0 < region.width.toNat)
    (small : 4 * (conf.pixelsPerScanLine.toNat * conf.height.toNat) < 2 ^ 64)
    (several : region.width.toNat * region.height.toNat ≠ 1 ∨ lowByteFill pixel = pixel ∨
      ¬(region.destinationX = 0 ∧ region.width = conf.scanLine)) :
    Moves conf blit (fun _ _ => pixel) (BlitOutcome.filled conf region pixel) := by
  have height := covers.height
  unfold BlitOutcome.filled
  by_cases oneShot : region.destinationX = 0 ∧ region.width = conf.scanLine
  · have size := oneShot_size oneShot.2 (by omega) small
    have painted : Moves conf blit (fun _ _ => pixel) _ :=
      covers.oneShot oneShot.1 oneShot.2 nonempty
    rw [if_pos oneShot]
    dsimp only
    rw [size]
    generalize region.width.toNat * region.height.toNat = pixels at several painted ⊢
    by_cases many : 4 * pixels ≥ 8
    · have all : 4 * pixels / 4 * 4 = 4 * pixels := by omega
      rw [if_pos many, all, Nat.sub_self, bytesPerPixel, Nat.mul_div_cancel_left _ (by decide)]
      simpa [storeAll] using painted
    · have low : pixels = 0 ∨ lowByteFill pixel = pixel := by
        rcases several with several | same | other
        · exact .inl (by omega)
        · exact .inr same
        · exact absurd oneShot other
      rw [if_neg many, Nat.sub_zero, bytesPerPixel, Nat.mul_div_cancel_left _ (by decide)]
      rcases low with rfl | same
      · simpa [storeAll] using painted
      · rw [same]
        simpa [storeAll] using painted
  · rw [if_neg oneShot]
    have lines : (region.height + region.destinationY).toNat - region.destinationY.toNat =
        region.height.toNat := by
      rw [BitVec.toNat_add, Nat.mod_eq_of_lt (by omega), Nat.add_sub_cancel]
    rw [lines]
    exact covers.fillLines nonempty

end Fill

section Render

variable {events : List Event}

/-- The rows of the BltBuffer are as long as `Delta` says, or as the rectangle. -/
def strided (blit : Blit) : Blit :=
  { blit with delta := if blit.delta = 0 then blit.width else blit.delta / 4 }

def ownColour (conf : Configure) (bltBuffer : Uintn → Pixel) (operation : Operation)
    (blit : Blit) : Nat → Nat → Pixel :=
  match operation with
  | .videoFill => fun _ _ => conf.convert (bltBuffer 0)
  | .bufferToVideo => sourceColour conf bltBuffer (strided blit)

structure Sane (conf : Configure) (bltBuffer : Uintn → Pixel) (operation : Operation)
    (blit : Blit) : Prop where
  columns : blit.destinationX.toNat + blit.width.toNat < 2 ^ 64
  lines : blit.destinationY.toNat + blit.height.toNat < 2 ^ 64
  moved : operation = .bufferToVideo → conf.rotation = 270 →
    conf.pixelFormat = .blueGreenRedReserved8BitPerColor ∨ blit.height.toNat ≤ 1
  filled : operation = .videoFill →
    ¬FillsLowByte conf blit (conf.convert (bltBuffer 0))

variable {conf : Configure} {bltBuffer : Uintn → Pixel} {operation : Operation} {blit : Blit}

theorem paints_strided {colour : Nat → Nat → Pixel} :
    Paints conf (strided blit) colour events ↔ Paints conf blit colour events :=
  ⟨fun paints => ⟨paints.onScreen, paints.lines, paints.inside, paints.exactly, paints.painted⟩,
    fun paints => ⟨paints.onScreen, paints.lines, paints.inside, paints.exactly, paints.painted⟩⟩

structure Passed (conf : Configure) (blit : Blit) : Prop where
  taken : conf.rejects blit.destinationX blit.destinationY blit.width blit.height = false
  columns : (blit.destinationX + blit.width).toNat ≤ conf.rotatedWidth.toNat
  lines : (blit.destinationY + blit.height).toNat ≤ conf.rotatedHeight.toNat
  width : 0 < blit.width.toNat
  height : 0 < blit.height.toNat

theorem passed_of_success (success : (ocBlitRender conf bltBuffer operation blit).1 = .success) :
    Passed conf blit := by
  have taken : conf.rejects blit.destinationX blit.destinationY blit.width blit.height = false := by
    cases rejected : conf.rejects blit.destinationX blit.destinationY blit.width blit.height
    · rfl
    · cases operation <;>
        simp [ocBlitRender, blitLibVideoFill, blitLibBufferToVideo, rejected] at success
  have checks := taken
  unfold Configure.rejects at checks
  simp only [Bool.or_eq_false_iff, decide_eq_false_iff_not, beq_eq_false_iff_ne, ne_eq,
    not_lt, gt_iff_lt] at checks
  obtain ⟨⟨⟨lines, columns⟩, width⟩, height⟩ := checks
  refine ⟨taken, columns, lines, ?_, ?_⟩
  · exact Nat.pos_of_ne_zero fun zero => width (BitVec.eq_of_toNat_eq zero)
  · exact Nat.pos_of_ne_zero fun zero => height (BitVec.eq_of_toNat_eq zero)

theorem Passed.fits (passed : Passed conf blit)
    (columns : blit.destinationX.toNat + blit.width.toNat < 2 ^ 64)
    (lines : blit.destinationY.toNat + blit.height.toNat < 2 ^ 64) : Fits conf blit := by
  have inColumns := passed.columns
  have inLines := passed.lines
  rw [BitVec.toNat_add, Nat.mod_eq_of_lt columns] at inColumns
  rw [BitVec.toNat_add, Nat.mod_eq_of_lt lines] at inLines
  exact ⟨inColumns, inLines⟩

theorem Passed.fits_of_paints (passed : Passed conf blit) {colour : Nat → Nat → Pixel}
    (paints : Paints conf blit colour events) : Fits conf blit := by
  have width := passed.width
  have height := passed.height
  obtain ⟨column, line⟩ := paints.onScreen (blit.width.toNat - 1) (by omega)
    (blit.height.toNat - 1) (by omega)
  exact ⟨by omega, by omega⟩

theorem unrotate_sizes (conf : Configure) (blit : Blit) :
    ((conf.unrotate (Blit.region blit)).width = blit.width ∧
        (conf.unrotate (Blit.region blit)).height = blit.height) ∨
      ((conf.unrotate (Blit.region blit)).width = blit.height ∧
        (conf.unrotate (Blit.region blit)).height = blit.width) := by
  unfold Configure.unrotate
  split
  · exact .inr ⟨rfl, rfl⟩
  · exact .inl ⟨rfl, rfl⟩
  · exact .inr ⟨rfl, rfl⟩
  · exact .inl ⟨rfl, rfl⟩

theorem Paints.single {colour : Nat → Nat → Pixel} {offset : Uintn} {pixel : Pixel}
    (paints : Paints conf blit colour [.frame offset pixel]) (width : blit.width = 1)
    (height : blit.height = 1) : pixel = colour 0 0 := by
  have one : blit.width.toNat = 1 := by rw [width]; rfl
  have one' : blit.height.toNat = 1 := by rw [height]; rfl
  obtain ⟨x, left, y, top, place⟩ := paints.exactly offset pixel (List.mem_singleton_self _)
  obtain rfl : x = 0 := by omega
  obtain rfl : y = 0 := by omega
  have painted := paints.painted 0 left 0 top fun _ => 0
  rw [← place, BitVec.ofNat_toNat, BitVec.setWidth_eq, draw, draw, Function.update_self] at painted
  exact painted

theorem lowByte_wrong {pixel : Pixel} (accepted : Accepted conf) (fits : Fits conf blit)
    (low : FillsLowByte conf blit pixel) :
    ¬Paints conf blit (fun _ _ => pixel)
      (filled conf (conf.unrotate (Blit.region blit)) pixel) := by
  intro paints
  obtain ⟨narrow, width, height, differ⟩ := low
  have covers := unrotate_covers accepted fits
  have height' : (conf.unrotate (Blit.region blit)).height = 1 := by
    rcases unrotate_sizes conf blit with ⟨_, same⟩ | ⟨_, same⟩
    · rw [same, height]
    · rw [same, width]
  generalize conf.unrotate (Blit.region blit) = region at paints covers height'
  have one : conf.scanLine = 1 := by
    rw [Configure.scanLine, narrow]
    rfl
  obtain ⟨column, within, _⟩ := covers.covered 0 (by rw [width]; decide) 0 (by rw [height]; decide)
  have wide := covers.width
  have narrow' := accepted.width
  rw [narrow, show (1 : BitVec 32).toNat = 1 from rfl] at narrow'
  have start : region.destinationX = 0 := BitVec.eq_of_toNat_eq (by
    rw [show (0 : BitVec 64).toNat = 0 from rfl]
    omega)
  have single : region.width = 1 := BitVec.eq_of_toNat_eq (by
    rw [show (1 : BitVec 64).toNat = 1 from rfl]
    omega)
  have oneShot : region.destinationX = 0 ∧ region.width = conf.scanLine :=
    ⟨start, single.trans one.symm⟩
  have size : (region.width * 4 * region.height).toNat = 4 := by
    rw [single, height']
    rfl
  unfold BlitOutcome.filled at paints
  rw [if_pos oneShot, size] at paints
  exact differ (Paints.single paints width height)

theorem ocBlitRender_fill (passed : Passed conf blit) :
    (ocBlitRender conf bltBuffer .videoFill blit).2 = filled conf (conf.unrotate (Blit.region blit))
        (conf.convert (bltBuffer 0)) :=
  congrArg Prod.snd (blitLibVideoFill_filled (bltBuffer 0) passed.taken)

theorem ocBlitRender_move (passed : Passed conf blit) :
    (ocBlitRender conf bltBuffer .bufferToVideo blit).2 = match conf.rotation with
      | 0 => blitLibBufferToVideo0 conf bltBuffer (strided blit)
      | 90 => blitLibBufferToVideo90 conf bltBuffer (strided blit)
      | 180 => blitLibBufferToVideo180 conf bltBuffer (strided blit)
      | 270 => blitLibBufferToVideo270 conf bltBuffer (strided blit)
      | _ => [] := by
  have taken : ¬conf.rejects blit.destinationX blit.destinationY blit.width blit.height = true := by
    rw [passed.taken]
    decide
  exact congrArg Prod.snd (if_neg taken)

theorem ocBlitRender_moves (accepted : Accepted conf) (passed : Passed conf blit)
    (sane : Sane conf bltBuffer operation blit)
    (small : 4 * (conf.pixelsPerScanLine.toNat * conf.height.toNat) < 2 ^ 64) :
    Paints conf blit (ownColour conf bltBuffer operation blit)
      (ocBlitRender conf bltBuffer operation blit).2 := by
  have fits := passed.fits sane.columns sane.lines
  have onScreen (x : Nat) (left : x < blit.width.toNat) (y : Nat) (top : y < blit.height.toNat) :=
    fits.onScreen left top
  cases operation with
  | videoFill =>
    have covers := unrotate_covers accepted fits
    have spared := sane.filled rfl
    obtain ⟨column, within, _⟩ := covers.covered 0 passed.width 0 passed.height
    rw [ocBlitRender_fill passed]
    refine (Covers.filled covers (Nat.zero_lt_of_lt within) small ?_).paints accepted
      (le_of_lt small) onScreen
    by_contra exception
    simp only [not_or, not_not] at exception
    obtain ⟨one, differ, _, line⟩ := exception
    have width := Nat.eq_one_of_mul_eq_one_right one
    have height := Nat.eq_one_of_mul_eq_one_left one
    have narrow : conf.pixelsPerScanLine = 1 := BitVec.eq_of_toNat_eq (by
      rw [line, Configure.scanLine, BitVec.toNat_setWidth_of_le (by decide)] at width
      exact width)
    have sizes : blit.width = 1 ∧ blit.height = 1 := by
      rcases unrotate_sizes conf blit with ⟨same, same'⟩ | ⟨same, same'⟩
      · rw [same] at width
        rw [same'] at height
        exact ⟨BitVec.eq_of_toNat_eq width, BitVec.eq_of_toNat_eq height⟩
      · rw [same] at width
        rw [same'] at height
        exact ⟨BitVec.eq_of_toNat_eq height, BitVec.eq_of_toNat_eq width⟩
    exact spared ⟨narrow, sizes.1, sizes.2, differ⟩
  | bufferToVideo =>
    have fits' : Fits conf (strided blit) := ⟨fits.columns, fits.lines⟩
    rw [ocBlitRender_move passed, ← paints_strided]
    rcases accepted.rotation with turned | turned | turned | turned
    · rw [turned]
      exact (blitLibBufferToVideo0_moves bltBuffer accepted fits' turned).paints accepted
        (le_of_lt small) onScreen
    · rw [turned]
      exact (blitLibBufferToVideo90_moves bltBuffer accepted fits' turned).paints accepted
        (le_of_lt small) onScreen
    · rw [turned]
      exact (blitLibBufferToVideo180_moves bltBuffer accepted fits' turned).paints accepted
        (le_of_lt small) onScreen
    · have single := sane.moved rfl turned
      rw [turned]
      exact (blitLibBufferToVideo270_moves bltBuffer accepted fits' turned single).paints accepted
        (le_of_lt small) onScreen

theorem ocBlitRender_paints {frameBuffer : Uintn} {info : ModeInformation}
    {rotation configureSize : Nat}
    (configured : ocBlitConfigure frameBuffer info rotation configureSize = .ok conf)
    (turned : rotation = 0 ∨ rotation = 90 ∨ rotation = 180 ∨ rotation = 270)
    (small : 4 * (conf.pixelsPerScanLine.toNat * conf.height.toNat) < 2 ^ 64)
    (success : (ocBlitRender conf bltBuffer operation blit).1 = .success) :
    Paints conf blit (ownColour conf bltBuffer operation blit)
        (ocBlitRender conf bltBuffer operation blit).2 ↔
      Sane conf bltBuffer operation blit := by
  have accepted := ocBlitConfigure_accepted configured turned
  have passed := passed_of_success success
  refine ⟨fun paints => ?_, fun sane => ocBlitRender_moves accepted passed sane small⟩
  have fits := passed.fits_of_paints paints
  have columns := fits.columns
  have lines := fits.lines
  have wide : conf.rotatedWidth.toNat < 2 ^ 32 := conf.rotatedWidth.isLt
  have high : conf.rotatedHeight.toNat < 2 ^ 32 := conf.rotatedHeight.isLt
  refine ⟨by omega, by omega, ?_, ?_⟩
  · rintro rfl turned
    by_contra wrong
    rw [not_or, not_le] at wrong
    rw [ocBlitRender_move passed, turned, ← paints_strided] at paints
    have fits' : Fits conf (strided blit) := ⟨fits.columns, fits.lines⟩
    exact blitLibBufferToVideo270_wrong bltBuffer accepted fits' turned wrong.1 passed.width
      wrong.2 small paints
  · rintro rfl low
    rw [ocBlitRender_fill passed] at paints
    exact lowByte_wrong accepted fits low paints

def smallInfo (size : BitVec 32) : ModeInformation where
  horizontalResolution := size
  verticalResolution := size
  pixelFormat := .redGreenBlueReserved8BitPerColor
  pixelInformation := rgbPixelMasks
  pixelsPerScanLine := size

def smallScreen (size : BitVec 32) (rotation : Nat) : Configure where
  pixelsPerScanLine := size
  width := size
  height := size
  rotatedWidth := size
  rotatedHeight := size
  rotation := rotation
  frameBuffer := 0x80000000
  pixelFormat := .redGreenBlueReserved8BitPerColor
  pixelMasks := rgbPixelMasks
  pixelShl := (0, 0, 16)
  pixelShr := (16, 0, 0)

def oneColumn (destinationY height : Uintn) : Blit := ⟨0, 0, 0, destinationY, 1, height, 0⟩

theorem ocBlitRender_paints_turned :
    Paints (smallScreen 2 90) (oneColumn 0 2)
        (ownColour (smallScreen 2 90) (fun _ => 0x00ff00) .bufferToVideo (oneColumn 0 2))
        (ocBlitRender (smallScreen 2 90) (fun _ => 0x00ff00) .bufferToVideo (oneColumn 0 2)).2 ↔
      Sane (smallScreen 2 90) (fun _ => 0x00ff00) .bufferToVideo (oneColumn 0 2) :=
  @ocBlitRender_paints _ _ _ _ 0x80000000 (smallInfo 2) 90 128 rfl (by decide) (by decide) (by decide)

/-- The second row of a converted column lands on another line; a sum that wraps passes the
check, and a row in front of the frame buffer is stored to; a blue pixel is filled with black. -/
theorem ocBlitRender_wrong :
    (ocBlitConfigure 0x80000000 (smallInfo 2) 270 128 = .ok (smallScreen 2 270) ∧
      (ocBlitRender (smallScreen 2 270) (fun _ => 0x00ff00) .bufferToVideo (oneColumn 0 2)).1 =
        .success ∧
      ¬Paints (smallScreen 2 270) (oneColumn 0 2)
        (ownColour (smallScreen 2 270) (fun _ => 0x00ff00) .bufferToVideo (oneColumn 0 2))
        (ocBlitRender (smallScreen 2 270) (fun _ => 0x00ff00) .bufferToVideo (oneColumn 0 2)).2) ∧
    (ocBlitConfigure 0x80000000 (smallInfo 2) 0 128 = .ok (smallScreen 2 0) ∧
      (ocBlitRender (smallScreen 2 0) (fun _ => 0x00ff00) .bufferToVideo (oneColumn (-1) 2)).1 =
        .success ∧
      .frame (-8) 0x00ff00 ∈ (ocBlitRender (smallScreen 2 0) (fun _ => 0x00ff00) .bufferToVideo
        (oneColumn (-1) 2)).2) ∧
    (ocBlitConfigure 0x80000000 (smallInfo 1) 0 128 = .ok (smallScreen 1 0) ∧
      (ocBlitRender (smallScreen 1 0) (fun _ => 0x0000ff) .videoFill (oneColumn 0 1)).2 =
        [.frame 0 0] ∧
      (smallScreen 1 0).convert 0x0000ff = 0xff0000) := by
  refine ⟨⟨rfl, by decide, fun paints => ?_⟩, ⟨rfl, by decide, by decide⟩, ⟨rfl, by decide, by decide⟩⟩
  obtain ⟨x, left, y, top, place⟩ := paints.exactly 4 0x00ff00 (by decide)
  have elsewhere : ∀ x < 1, ∀ y < 2, (4 : Nat) ≠ target (smallScreen 2 270) (oneColumn 0 2) x y := by
    decide
  exact elsewhere x left y top place

/-- A request that is granted and meets none of the two exceptions. -/
structure Request (conf : Configure) where
  operation : Operation
  bltBuffer : Uintn → Pixel
  blit : Blit
  success : (ocBlitRender conf bltBuffer operation blit).1 = .success
  sane : Sane conf bltBuffer operation blit

variable {request : Request conf} {memory : Uintn → Pixel} {screen : Nat → Nat → Pixel}

def Request.draw (memory : Uintn → Pixel) (request : Request conf) : Uintn → Pixel :=
  BlitImages.draw (ocBlitRender conf request.bltBuffer request.operation request.blit).2 memory

def Request.paint (screen : Nat → Nat → Pixel) (request : Request conf) (x y : Nat) : Pixel :=
  let left := request.blit.destinationX.toNat
  let top := request.blit.destinationY.toNat
  if (left ≤ x ∧ x < left + request.blit.width.toNat) ∧
      top ≤ y ∧ y < top + request.blit.height.toNat then
    ownColour conf request.bltBuffer request.operation request.blit (x - left) (y - top)
  else screen x y

def Shows (conf : Configure) (memory : Uintn → Pixel) (screen : Nat → Nat → Pixel) : Prop :=
  ∀ x y, OnScreen conf x y →
    memory (BitVec.ofNat 64 (4 * image conf x y)) = screen x y

theorem Shows.draw (shows : Shows conf memory screen) (accepted : Accepted conf)
    (small : 4 * (conf.pixelsPerScanLine.toNat * conf.height.toNat) < 2 ^ 64) :
    Shows conf (request.draw memory) (request.paint screen) := by
  intro x y shown
  have paints := ocBlitRender_moves accepted (passed_of_success request.success) request.sane small
  unfold Request.paint
  dsimp only
  split
  · next covered =>
      have painted := paints.painted (x - request.blit.destinationX.toNat) (by omega)
        (y - request.blit.destinationY.toNat) (by omega) memory
      rwa [target, Nat.add_sub_of_le covered.1.1, Nat.add_sub_of_le covered.2.1] at painted
  · next uncovered =>
      rw [← shows x y shown]
      refine draw_untouched memory fun pixel member => uncovered ?_
      obtain ⟨a, left, b, top, place⟩ := paints.exactly _ pixel member
      have below := accepted.image_lt shown
      rw [BitVec.toNat_ofNat, Nat.mod_eq_of_lt (by omega), target] at place
      obtain ⟨rfl, rfl⟩ := accepted.image_inj shown (paints.onScreen a left b top)
        (Nat.eq_of_mul_eq_mul_left (by decide) place)
      omega

/-- Any sequence of requests leaves in the frame buffer the turned image of a screen on which
they are painted one over the other. -/
theorem requests_painted {frameBuffer : Uintn} {info : ModeInformation}
    {rotation configureSize : Nat} (requests : List (Request conf))
    (configured : ocBlitConfigure frameBuffer info rotation configureSize = .ok conf)
    (turned : rotation = 0 ∨ rotation = 90 ∨ rotation = 180 ∨ rotation = 270)
    (small : 4 * (conf.pixelsPerScanLine.toNat * conf.height.toNat) < 2 ^ 64)
    (shows : Shows conf memory screen) :
    Shows conf (requests.foldl Request.draw memory) (requests.foldl Request.paint screen) := by
  have accepted := ocBlitConfigure_accepted configured turned
  induction requests generalizing memory screen with
  | nil => exact shows
  | cons request rest ih => exact ih (shows.draw accepted small)

def turnedColumn : Request (smallScreen 2 90) :=
  ⟨.bufferToVideo, fun _ => 0x00ff00, oneColumn 0 2, rfl, by decide, by decide,
    fun _ turned => absurd turned (by decide), nofun⟩

/-- The lower row, which the column reaches into. -/
def filledRow : Request (smallScreen 2 90) :=
  ⟨.videoFill, fun _ => 0xff0000, ⟨0, 0, 0, 1, 2, 1, 0⟩, rfl, by decide, by decide, nofun,
    fun _ low => absurd low.1 (by decide)⟩

theorem requests_painted_turned :
    Shows (smallScreen 2 90) ([turnedColumn, filledRow].foldl Request.draw fun _ => 0)
        ([turnedColumn, filledRow].foldl Request.paint fun _ _ => 0) ∧
      [turnedColumn, filledRow].foldl Request.paint (fun _ _ => 0) 0 0 = 0x00ff00 ∧
      [turnedColumn, filledRow].foldl Request.paint (fun _ _ => 0) 0 1 = 0x0000ff :=
  ⟨@requests_painted _ _ _ 0x80000000 (smallInfo 2) 90 128 [turnedColumn, filledRow] rfl
    (by decide) (by decide) fun _ _ _ => rfl, by decide, by decide⟩

end Render

end OpenCore.BlitOutcome
