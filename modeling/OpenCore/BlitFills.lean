import OpenCore.BlitMoves
import Mathlib.Data.List.GetD

/-!
Filling a rectangle: turned back, the rectangle is a region of the frame buffer whose pixels
are the images of its own. A region as wide as the lines is filled at once, any other line by
line, two pixels at a time or from the line buffer.
-/

namespace OpenCore.BlitFills

open BlitVideo BlitImages BlitMoves List

section Regions

def regionPlace (conf : Configure) (region : Region) (column line : Nat) : Nat :=
  (region.destinationY.toNat + line) * conf.pixelsPerScanLine.toNat +
    (region.destinationX.toNat + column)

structure Covers (conf : Configure) (blit : Blit) (region : Region) : Prop where
  width : region.destinationX.toNat + region.width.toNat ≤ conf.width.toNat
  height : region.destinationY.toNat + region.height.toNat ≤ conf.height.toNat
  shown : ∀ column < region.width.toNat, ∀ line < region.height.toNat,
    ∃ x < blit.width.toNat, ∃ y < blit.height.toNat,
      regionPlace conf region column line =
        image conf (blit.destinationX.toNat + x) (blit.destinationY.toNat + y)
  covered : ∀ x < blit.width.toNat, ∀ y < blit.height.toNat,
    ∃ column < region.width.toNat, ∃ line < region.height.toNat,
      regionPlace conf region column line =
        image conf (blit.destinationX.toNat + x) (blit.destinationY.toNat + y)

def Blit.region (blit : Blit) : Region :=
  ⟨blit.destinationX, blit.destinationY, blit.width, blit.height⟩

variable {conf : Configure} {blit : Blit}

theorem Covers.of_turn {region : Region} (column line : Nat → Nat → Nat) (x y : Nat → Nat → Nat)
    (width : region.destinationX.toNat + region.width.toNat ≤ conf.width.toNat)
    (height : region.destinationY.toNat + region.height.toNat ≤ conf.height.toNat)
    (there : ∀ a < blit.width.toNat, ∀ b < blit.height.toNat,
      column a b < region.width.toNat ∧ line a b < region.height.toNat ∧
        regionPlace conf region (column a b) (line a b) =
          image conf (blit.destinationX.toNat + a) (blit.destinationY.toNat + b))
    (back : ∀ i < region.width.toNat, ∀ j < region.height.toNat,
      x i j < blit.width.toNat ∧ y i j < blit.height.toNat ∧
        column (x i j) (y i j) = i ∧ line (x i j) (y i j) = j) :
    Covers conf blit region where
  width := width
  height := height
  shown i within j below := by
    obtain ⟨left, top, across, down⟩ := back i within j below
    obtain ⟨_, _, same⟩ := there _ left _ top
    rw [across, down] at same
    exact ⟨_, left, _, top, same⟩
  covered a left b top := by
    obtain ⟨within, below, same⟩ := there a left b top
    exact ⟨_, within, _, below, same⟩

theorem toNat_far {size : BitVec 32} {start count : Uintn}
    (fits : start.toNat + count.toNat ≤ size.toNat) :
    (size.setWidth 64 - start - count).toNat = size.toNat - start.toNat - count.toNat := by
  have whole : (size.setWidth 64).toNat = size.toNat := BitVec.toNat_setWidth_of_le (by decide)
  have first : (size.setWidth 64 - start).toNat = size.toNat - start.toNat := by
    rw [BitVec.toNat_sub_of_le (BitVec.le_def.mpr (by omega)), whole]
  rw [BitVec.toNat_sub_of_le (BitVec.le_def.mpr (by omega)), first]

theorem unrotate_covers (accepted : Accepted conf) (fits : Fits conf blit) :
    Covers conf blit (conf.unrotate (Blit.region blit)) := by
  obtain ⟨columns, lines⟩ := fits
  rw [accepted.rotatedWidth] at columns
  rw [accepted.rotatedHeight] at lines
  rcases accepted.rotation with turned | turned | turned | turned <;>
    simp only [turned] at columns lines <;>
    simp at columns lines <;>
    simp only [Configure.unrotate, turned]
  · refine Covers.of_turn (fun a _ => a) (fun _ b => b) (fun i _ => i) (fun _ j => j)
      columns lines (fun a left b top => ⟨left, top, ?_⟩) fun i left j top => ⟨left, top, rfl, rfl⟩
    simp only [regionPlace, image, turned]
    rfl
  · have far := toNat_far lines
    refine Covers.of_turn (fun _ b => blit.height.toNat - 1 - b) (fun a _ => a) (fun _ j => j)
      (fun i _ => blit.height.toNat - 1 - i) ?_ columns ?_ ?_
    · simp only [Blit.region, far]
      omega
    · intro a left b top
      refine ⟨?_, left, ?_⟩
      · simp only [Blit.region]
        omega
      · simp only [regionPlace, image, turned, Blit.region, far]
        congr 1
        omega
    · intro i left j top
      simp only [Blit.region] at left top
      exact ⟨top, by omega, by omega, rfl⟩
  · have farX := toNat_far columns
    have farY := toNat_far lines
    refine Covers.of_turn (fun a _ => blit.width.toNat - 1 - a)
      (fun _ b => blit.height.toNat - 1 - b) (fun i _ => blit.width.toNat - 1 - i)
      (fun _ j => blit.height.toNat - 1 - j) ?_ ?_ ?_ ?_
    · simp only [Blit.region, farX]
      omega
    · simp only [Blit.region, farY]
      omega
    · intro a left b top
      refine ⟨?_, ?_, ?_⟩
      · simp only [Blit.region]
        omega
      · simp only [Blit.region]
        omega
      · simp only [regionPlace, image, turned, Blit.region, farX, farY]
        congr 1
        · congr 1
          omega
        · omega
    · intro i left j top
      simp only [Blit.region] at left top
      exact ⟨by omega, by omega, by omega, by omega⟩
  · have far := toNat_far columns
    refine Covers.of_turn (fun _ b => b) (fun a _ => blit.width.toNat - 1 - a)
      (fun _ j => blit.width.toNat - 1 - j) (fun i _ => i) lines ?_ ?_ ?_
    · simp only [Blit.region, far]
      omega
    · intro a left b top
      refine ⟨top, ?_, ?_⟩
      · simp only [Blit.region]
        omega
      · simp only [regionPlace, image, turned, Blit.region, far]
        congr 2
        omega
    · intro i left j top
      simp only [Blit.region] at left top
      exact ⟨by omega, left, rfl, by omega⟩

theorem Covers.moves {region : Region} {pixel : Pixel} {events : List Event}
    (covers : Covers conf blit region)
    (only : ∀ event ∈ events, (∃ index < conf.width.toNat, event = .line index) ∨
      ∃ column < region.width.toNat, ∃ line < region.height.toNat,
        event = store (BitVec.ofNat 64 (regionPlace conf region column line)) pixel)
    (all : ∀ column < region.width.toNat, ∀ line < region.height.toNat,
      store (BitVec.ofNat 64 (regionPlace conf region column line)) pixel ∈ events) :
    Moves conf blit (fun _ _ => pixel) events := by
  constructor
  · intro event member
    rcases only event member with line | ⟨column, within, line, below, rfl⟩
    · exact .inl line
    · obtain ⟨x, left, y, top, same⟩ := covers.shown column within line below
      exact .inr ⟨x, left, y, top, store_eq_paint (congrArg _ same) rfl⟩
  · intro x left y top
    obtain ⟨column, within, line, below, same⟩ := covers.covered x left y top
    rw [← @store_eq_paint _ _ (fun _ _ => pixel) _ pixel x y (congrArg _ same) rfl]
    exact all column within line below

end Regions

section Lines

variable {conf : Configure} {pixel : Pixel}

theorem wideFill_word (index : Nat) :
    (pixel ++ pixel : BitVec 64).extractLsb' (32 * (index % 2)) 32 = pixel := by
  rcases Nat.mod_two_eq_zero_or_one index with even | odd
  · rw [even]
    exact BitVec.extractLsb'_append_eq_right
  · rw [odd]
    exact BitVec.extractLsb'_append_eq_left

theorem ofNat_add_add (place : Uintn) (first second : Nat) :
    place + BitVec.ofNat 64 first + BitVec.ofNat 64 second =
      place + BitVec.ofNat 64 (first + second) := by
  rw [BitVec.ofNat_add, BitVec.add_assoc]

theorem mem_fillWide {destination : Uintn} {width : Nat} {event : Event} :
    event ∈ fillWide destination (4 * width) pixel ↔
      ∃ column < width, event = store (destination + BitVec.ofNat 64 column) pixel := by
  have wide : (if 4 * width ≥ 8 then 4 * width / 8 * 8 else 0) = 8 * (width / 2) := by
    split <;> omega
  have whole : 8 * (width / 2) / bytesPerPixel = 2 * (width / 2) := by
    rw [bytesPerPixel]
    omega
  have rest : (4 * width - 8 * (width / 2)) / bytesPerPixel = width % 2 := by
    rw [bytesPerPixel]
    omega
  have low : (pixel ++ pixel : BitVec 64).extractLsb' 0 32 = pixel := wideFill_word 0
  unfold fillWide
  dsimp only
  rw [wide, whole, rest, mem_append, mem_storeAll, mem_storeAll]
  simp only [wideFill_word, low, ofNat_add_add]
  constructor
  · rintro (⟨column, within, same⟩ | ⟨column, within, same⟩)
    · exact ⟨column, by omega, same⟩
    · exact ⟨2 * (width / 2) + column, by omega, same⟩
  · rintro ⟨column, within, same⟩
    by_cases paired : column < 2 * (width / 2)
    · exact .inl ⟨column, paired, same⟩
    · refine .inr ⟨column - 2 * (width / 2), by omega, ?_⟩
      rw [same, Nat.add_sub_cancel' (Nat.le_of_not_lt paired)]

theorem fillLine_eq (width copies : Nat) {length : Nat} (started : 0 < length)
    (short : length ≤ width) (enough : width ≤ length + copies) :
    fillLine width copies (replicate length pixel) = replicate width pixel := by
  induction copies generalizing length with
  | zero =>
    obtain rfl : length = width := le_antisymm short enough
    rfl
  | succ copies ih =>
    rw [fillLine, length_replicate]
    split
    next below =>
      rw [take_replicate, replicate_append_replicate]
      exact ih (by omega) (by omega) (by omega)
    next full => rw [le_antisymm short (Nat.le_of_not_lt full)]

structure FillsLines (conf : Configure) (region : Region) (pixel : Pixel) (lines : Nat)
    (indexY : Uintn) (events : List Event) : Prop where
  only : ∀ event ∈ events, (∃ index < region.width.toNat, event = .line index) ∨
    ∃ column < region.width.toNat, ∃ line < lines,
      event = store ((indexY + BitVec.ofNat 64 line) * conf.scanLine +
        region.destinationX + BitVec.ofNat 64 column) pixel
  all : ∀ column < region.width.toNat, ∀ line < lines,
    store ((indexY + BitVec.ofNat 64 line) * conf.scanLine + region.destinationX +
      BitVec.ofNat 64 column) pixel ∈ events

theorem FillsLines.cons {region : Region} {lines : Nat} {indexY : Uintn} {first rest : List Event}
    (firstOnly : ∀ event ∈ first, (∃ index < region.width.toNat, event = .line index) ∨
      ∃ column < region.width.toNat, event = store (indexY * conf.scanLine + region.destinationX +
          BitVec.ofNat 64 column) pixel)
    (firstAll : ∀ column < region.width.toNat,
      store (indexY * conf.scanLine + region.destinationX + BitVec.ofNat 64 column) pixel ∈
        first)
    (others : FillsLines conf region pixel lines (indexY + 1) rest) :
    FillsLines conf region pixel (lines + 1) indexY (first ++ rest) := by
  have here : indexY + BitVec.ofNat 64 0 = indexY := BitVec.add_zero indexY
  have next (line : Nat) : indexY + 1 + BitVec.ofNat 64 line = indexY + BitVec.ofNat 64 (line + 1) := by
    rw [BitVec.ofNat_add, show BitVec.ofNat 64 1 = 1 from rfl, BitVec.add_assoc, BitVec.add_comm 1]
  constructor
  · intro event member
    rcases mem_append.mp member with this | later
    · rcases firstOnly event this with line | ⟨column, within, same⟩
      · exact .inl line
      · exact .inr ⟨column, within, 0, Nat.zero_lt_succ _, by rw [here, same]⟩
    · rcases others.only event later with line | ⟨column, within, line, below, same⟩
      · exact .inl line
      · exact .inr ⟨column, within, line + 1, Nat.succ_lt_succ below, by rw [← next, same]⟩
  · intro column within line below
    cases line with
    | zero =>
      rw [here]
      exact mem_append_left _ (firstAll column within)
    | succ line =>
      rw [← next]
      exact mem_append_right _ (others.all column within line (Nat.lt_of_succ_lt_succ below))

/-- Each line is filled from its start, whether it is aligned or the line buffer is used. -/
theorem fillLines_fills {region : Region} (narrow : region.width.toNat < 2 ^ 32)
    (nonempty : 0 < region.width.toNat) (lines : Nat) (indexY : Uintn) (ready : Bool) :
    FillsLines conf region pixel lines indexY
      (fillLines conf region pixel lines indexY ready) := by
  have size : (region.width * 4).toNat = 4 * region.width.toNat := by
    rw [BitVec.toNat_mul, show (4 : BitVec 64).toNat = 4 from rfl]
    omega
  have whole : 4 * region.width.toNat / bytesPerPixel = region.width.toNat :=
    Nat.mul_div_cancel_left _ (by decide)
  have line : fillLine region.width.toNat region.width.toNat [pixel] =
      replicate region.width.toNat pixel := fillLine_eq _ _ Nat.one_pos nonempty (by omega)
  induction lines generalizing indexY ready with
  | zero => exact ⟨nofun, fun _ _ _ below => absurd below (Nat.not_lt_zero _)⟩
  | succ lines ih =>
    rw [fillLines]
    dsimp only
    rw [size, whole, line, length_replicate]
    split
    · refine FillsLines.cons ?_ ?_ (ih _ _)
      · exact fun event member => .inr (mem_fillWide.mp member)
      · exact fun column within => mem_fillWide.mpr ⟨column, within, rfl⟩
    · refine FillsLines.cons ?_ ?_ (ih _ _)
      · intro event member
        rcases mem_append.mp member with buffered | drawn
        · split at buffered
          · cases buffered
          · obtain ⟨index, within, rfl⟩ := mem_map.mp buffered
            exact .inl ⟨index, mem_range.mp within, rfl⟩
        · obtain ⟨column, within, rfl⟩ := mem_storeAll.mp drawn
          refine .inr ⟨column, within, ?_⟩
          rw [getD_replicate _ within]
      · intro column within
        refine mem_append_right _ (mem_storeAll.mpr ⟨column, within, ?_⟩)
        rw [getD_replicate _ within]

end Lines

section Fill

variable {conf : Configure} {blit : Blit} {pixel : Pixel}
variable {region : Region}

theorem regionPlace_eq (column line : Nat) :
    BitVec.ofNat 64 (regionPlace conf region column line) =
      (region.destinationY + BitVec.ofNat 64 line) * conf.scanLine + region.destinationX +
        BitVec.ofNat 64 column := by
  rw [regionPlace, BitVec.ofNat_add, BitVec.ofNat_mul, ofNat_coordinate, ofNat_coordinate,
    ofNat_size, BitVec.add_assoc]
  rfl

theorem Covers.fillLines (covers : Covers conf blit region)
    (nonempty : 0 < region.width.toNat) :
    Moves conf blit (fun _ _ => pixel)
      (fillLines conf region pixel region.height.toNat region.destinationY false) := by
  have narrow := covers.width
  have small : conf.width.toNat < 2 ^ 32 := conf.width.isLt
  have fills : FillsLines conf region pixel region.height.toNat region.destinationY
      (BlitVideo.fillLines conf region pixel region.height.toNat region.destinationY false) :=
    fillLines_fills (by omega) nonempty _ _ _
  apply covers.moves
  · intro event member
    rcases fills.only event member with ⟨index, within, line⟩ | ⟨column, within, line, below, same⟩
    · exact .inl ⟨index, by omega, line⟩
    · exact .inr ⟨column, within, line, below, by rw [regionPlace_eq, same]⟩
  · intro column within line below
    rw [regionPlace_eq]
    exact fills.all column within line below

theorem Covers.oneShot (covers : Covers conf blit region)
    (start : region.destinationX = 0) (whole : region.width = conf.scanLine)
    (nonempty : 0 < region.width.toNat) :
    Moves conf blit (fun _ _ => pixel)
      (storeAll (region.destinationY * conf.scanLine)
        (region.width.toNat * region.height.toNat) fun _ => pixel) := by
  have line : region.width.toNat = conf.pixelsPerScanLine.toNat := by
    rw [whole]
    exact BitVec.toNat_setWidth_of_le (by decide)
  have place (column line : Nat) : BitVec.ofNat 64 (regionPlace conf region column line) =
      region.destinationY * conf.scanLine +
        BitVec.ofNat 64 (line * region.width.toNat + column) := by
    rw [regionPlace_eq, start, BitVec.ofNat_add, BitVec.ofNat_mul, BitVec.ofNat_toNat,
      BitVec.setWidth_eq, whole]
    ring
  apply covers.moves
  · intro event member
    obtain ⟨index, within, rfl⟩ := mem_storeAll.mp member
    refine .inr ⟨index % region.width.toNat, Nat.mod_lt _ nonempty, index / region.width.toNat,
      Nat.div_lt_of_lt_mul within, ?_⟩
    rw [place, Nat.mul_comm, Nat.div_add_mod]
  · intro column within line below
    refine mem_storeAll.mpr ⟨line * region.width.toNat + column, ?_, by rw [place]⟩
    exact index_lt below within

end Fill

end OpenCore.BlitFills
