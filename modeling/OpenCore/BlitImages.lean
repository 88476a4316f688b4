import OpenCore.BlitVideo
import Mathlib.Logic.Function.Basic

/-!
The one map from the pixels of a rotated screen to those of the frame buffer, and what it means
that a list of stores paints a rectangle: the pixels of the rectangle are on the screen, their
images are all that is stored to, and each has its own colour in the end.
-/

namespace OpenCore.BlitImages

open BlitVideo

section Map

structure Accepted (conf : Configure) : Prop where
  rotation : conf.rotation = 0 ∨ conf.rotation = 90 ∨ conf.rotation = 180 ∨
    conf.rotation = 270
  width : conf.width.toNat ≤ conf.pixelsPerScanLine.toNat
  rotatedWidth : conf.rotatedWidth =
    if conf.rotation = 90 ∨ conf.rotation = 270 then conf.height
    else conf.width
  rotatedHeight : conf.rotatedHeight =
    if conf.rotation = 90 ∨ conf.rotation = 270 then conf.width
    else conf.height

theorem ocBlitConfigure_accepted {frameBuffer : Uintn} {info : ModeInformation}
    {rotation configureSize : Nat} {conf : Configure}
    (configured : ocBlitConfigure frameBuffer info rotation configureSize = .ok conf)
    (turned : rotation = 0 ∨ rotation = 90 ∨ rotation = 180 ∨ rotation = 270) :
    Accepted conf := by
  unfold ocBlitConfigure at configured
  dsimp only at configured
  split at configured
  · cases configured
  · split at configured
    · cases configured
    next wide =>
      split at configured
      · cases configured
      · split at configured
        · cases configured
        · cases configured
          exact ⟨turned, Nat.le_of_not_lt wide, rfl, rfl⟩

def image (conf : Configure) (x y : Nat) : Nat :=
  let line := conf.pixelsPerScanLine.toNat
  match conf.rotation with
  | 90 => x * line + (conf.width.toNat - 1 - y)
  | 180 => (conf.height.toNat - 1 - y) * line + (conf.width.toNat - 1 - x)
  | 270 => (conf.height.toNat - 1 - x) * line + y
  | _ => y * line + x

def OnScreen (conf : Configure) (x y : Nat) : Prop :=
  x < conf.rotatedWidth.toNat ∧ y < conf.rotatedHeight.toNat

variable {conf : Configure}

theorem index_lt {row column line rows : Nat} (below : row < rows) (inside : column < line) :
    row * line + column < line * rows := by
  have whole : (row + 1) * line ≤ rows * line := Nat.mul_le_mul_right line below
  rw [add_mul, one_mul] at whole
  rw [mul_comm line]
  omega

theorem index_inj {row column row' column' line : Nat} (inside : column < line)
    (inside' : column' < line) (same : row * line + column = row' * line + column') :
    row = row' ∧ column = column' := by
  have positive : 0 < line := Nat.zero_lt_of_lt inside
  have rows := congrArg (· / line) same
  have columns := congrArg (· % line) same
  simp only [mul_comm _ line, Nat.mul_add_div positive, Nat.mul_add_mod,
    Nat.div_eq_of_lt inside, Nat.div_eq_of_lt inside', Nat.mod_eq_of_lt inside,
    Nat.mod_eq_of_lt inside', add_zero] at rows columns
  exact ⟨rows, columns⟩

theorem Accepted.image_lt (accepted : Accepted conf) {x y : Nat} (shown : OnScreen conf x y) :
    image conf x y < conf.pixelsPerScanLine.toNat * conf.height.toNat := by
  obtain ⟨below, beside⟩ := shown
  have narrow := accepted.width
  rw [accepted.rotatedWidth] at below
  rw [accepted.rotatedHeight] at beside
  rcases accepted.rotation with turned | turned | turned | turned <;>
    simp only [turned, image] at below beside ⊢ <;>
    simp at below beside <;>
    exact index_lt (by omega) (by omega)

theorem Accepted.image_inj (accepted : Accepted conf) {x y x' y' : Nat}
    (shown : OnScreen conf x y) (shown' : OnScreen conf x' y')
    (same : image conf x y = image conf x' y') : x = x' ∧ y = y' := by
  obtain ⟨below, beside⟩ := shown
  obtain ⟨below', beside'⟩ := shown'
  have narrow := accepted.width
  rw [accepted.rotatedWidth] at below below'
  rw [accepted.rotatedHeight] at beside beside'
  rcases accepted.rotation with turned | turned | turned | turned <;>
    simp only [turned, image] at below beside below' beside' same <;>
    simp at below beside below' beside' <;>
    obtain ⟨rows, columns⟩ := index_inj (by omega) (by omega) same <;>
    omega

end Map

section Painting

variable {events : List Event} {offset : Uintn}

def draw : List Event → (Uintn → Pixel) → Uintn → Pixel
  | [], memory => memory
  | .frame offset pixel :: rest, memory => draw rest (Function.update memory offset pixel)
  | .line _ :: rest, memory => draw rest memory

theorem draw_untouched (memory : Uintn → Pixel)
    (untouched : ∀ pixel, .frame offset pixel ∉ events) :
    draw events memory offset = memory offset := by
  induction events generalizing memory with
  | nil => rfl
  | cons event rest ih =>
    have others : ∀ pixel, .frame offset pixel ∉ rest :=
      fun pixel member => untouched pixel (List.mem_cons_of_mem _ member)
    cases event with
    | line index => exact ih memory others
    | frame place pixel =>
      have apart : offset ≠ place := fun same => untouched pixel (same ▸ List.mem_cons_self ..)
      rw [draw, ih _ others, Function.update_of_ne apart]

theorem draw_painted (memory : Uintn → Pixel)
    {colour : Pixel} (one : ∀ pixel, .frame offset pixel ∈ events → pixel = colour)
    (painted : .frame offset colour ∈ events) : draw events memory offset = colour := by
  induction events generalizing memory with
  | nil => cases painted
  | cons event rest ih =>
    have later : ∀ pixel, .frame offset pixel ∈ rest → pixel = colour :=
      fun pixel member => one pixel (List.mem_cons_of_mem _ member)
    by_cases again : .frame offset colour ∈ rest
    · cases event with
      | line index => exact ih memory later again
      | frame place pixel => exact ih _ later again
    · obtain rfl : event = .frame offset colour :=
        ((List.mem_cons.mp painted).resolve_right again).symm
      have last : ∀ pixel, .frame offset pixel ∉ rest :=
        fun pixel member => again (later pixel member ▸ member)
      rw [draw, draw_untouched _ last, Function.update_self]

def target (conf : Configure) (blit : Blit) (x y : Nat) : Nat :=
  4 * image conf (blit.destinationX.toNat + x) (blit.destinationY.toNat + y)

structure Paints (conf : Configure) (blit : Blit) (colour : Nat → Nat → Pixel)
    (events : List Event) : Prop where
  onScreen : ∀ x < blit.width.toNat, ∀ y < blit.height.toNat,
    OnScreen conf (blit.destinationX.toNat + x) (blit.destinationY.toNat + y)
  lines : ∀ index, .line index ∈ events → index < conf.width.toNat
  inside : ∀ offset pixel, .frame offset pixel ∈ events →
    offset.toNat + 4 ≤ 4 * (conf.pixelsPerScanLine.toNat * conf.height.toNat)
  exactly : ∀ offset pixel, .frame offset pixel ∈ events →
    ∃ x < blit.width.toNat, ∃ y < blit.height.toNat,
      offset.toNat = target conf blit x y
  painted : ∀ x < blit.width.toNat, ∀ y < blit.height.toNat, ∀ memory,
    draw events memory (BitVec.ofNat 64 (target conf blit x y)) = colour x y

def paint (conf : Configure) (blit : Blit) (colour : Nat → Nat → Pixel) (x y : Nat) : Event :=
  .frame (BitVec.ofNat 64 (target conf blit x y)) (colour x y)

structure Moves (conf : Configure) (blit : Blit) (colour : Nat → Nat → Pixel)
    (events : List Event) : Prop where
  only : ∀ event ∈ events, (∃ index < conf.width.toNat, event = .line index) ∨
    ∃ x < blit.width.toNat, ∃ y < blit.height.toNat, event = paint conf blit colour x y
  all : ∀ x < blit.width.toNat, ∀ y < blit.height.toNat, paint conf blit colour x y ∈ events

theorem Moves.paints {blit : Blit} {colour : Nat → Nat → Pixel}
    (moves : Moves conf blit colour events) (accepted : Accepted conf)
    (fits : 4 * (conf.pixelsPerScanLine.toNat * conf.height.toNat) ≤ 2 ^ 64)
    (onScreen : ∀ x < blit.width.toNat, ∀ y < blit.height.toNat,
      OnScreen conf (blit.destinationX.toNat + x) (blit.destinationY.toNat + y)) :
    Paints conf blit colour events := by
  have bound : ∀ x < blit.width.toNat, ∀ y < blit.height.toNat, target conf blit x y + 4 ≤
        4 * (conf.pixelsPerScanLine.toNat * conf.height.toNat) := by
    intro x left y top
    have below := accepted.image_lt (onScreen x left y top)
    unfold target
    omega
  have value : ∀ x < blit.width.toNat, ∀ y < blit.height.toNat,
      (BitVec.ofNat 64 (target conf blit x y)).toNat = target conf blit x y := by
    intro x left y top
    have below := bound x left y top
    rw [BitVec.toNat_ofNat]
    exact Nat.mod_eq_of_lt (by omega)
  have framed : ∀ offset pixel, .frame offset pixel ∈ events →
      ∃ x < blit.width.toNat, ∃ y < blit.height.toNat,
        offset.toNat = target conf blit x y ∧ pixel = colour x y := by
    intro offset pixel member
    rcases moves.only _ member with ⟨index, _, line⟩ | ⟨x, left, y, top, same⟩
    · cases line
    · cases same
      exact ⟨x, left, y, top, value x left y top, rfl⟩
  constructor
  · exact onScreen
  · intro index member
    rcases moves.only _ member with ⟨index', within, same⟩ | ⟨x, _, y, _, same⟩
    · cases same
      exact within
    · cases same
  · intro offset pixel member
    obtain ⟨x, left, y, top, place, _⟩ := framed offset pixel member
    rw [place]
    exact bound x left y top
  · intro offset pixel member
    obtain ⟨x, left, y, top, place, _⟩ := framed offset pixel member
    exact ⟨x, left, y, top, place⟩
  · intro x left y top memory
    refine draw_painted memory ?_ (moves.all x left y top)
    intro pixel member
    obtain ⟨x', left', y', top', place, rfl⟩ := framed _ pixel member
    -- Two pixels of the rectangle with one image are one.
    have same : image conf (blit.destinationX.toNat + x) (blit.destinationY.toNat + y) =
        image conf (blit.destinationX.toNat + x') (blit.destinationY.toNat + y') := by
      rw [value x left y top] at place
      exact Nat.eq_of_mul_eq_mul_left (by decide) place
    obtain ⟨columns, rows⟩ :=
      accepted.image_inj (onScreen x left y top) (onScreen x' left' y' top') same
    obtain rfl : x' = x := by omega
    obtain rfl : y' = y := by omega
    rfl

end Painting

end OpenCore.BlitImages
