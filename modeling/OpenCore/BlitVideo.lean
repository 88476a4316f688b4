import OpenCore.Base
import Mathlib.Data.BitVec
import Mathlib.Tactic.Ring

/-!
Blitting to a frame buffer that may be rotated: a rectangle is filled with a colour, or is
given the pixels of a buffer. A pointer to pixels is an offset in pixels from the start of its
buffer, with the wrap-around of the machine's words, and every loop is the list of what it
stores, in order.
-/

namespace OpenCore.BlitVideo

open Base

section Source

abbrev Uintn := BitVec 64
abbrev Pixel := BitVec 32

def bytesPerPixel : Nat := 4

inductive PixelFormat where
  | redGreenBlueReserved8BitPerColor
  | blueGreenRedReserved8BitPerColor
  | bitMask
  | bltOnly
  deriving DecidableEq

structure PixelBitmask where
  redMask : Pixel
  greenMask : Pixel
  blueMask : Pixel
  reservedMask : Pixel
  deriving DecidableEq

def rgbPixelMasks : PixelBitmask := ⟨0x000000ff, 0x0000ff00, 0x00ff0000, 0xff000000⟩
def bgrPixelMasks : PixelBitmask := ⟨0x00ff0000, 0x0000ff00, 0x000000ff, 0xff000000⟩

structure ModeInformation where
  horizontalResolution : BitVec 32
  verticalResolution : BitVec 32
  pixelFormat : PixelFormat
  pixelInformation : PixelBitmask
  pixelsPerScanLine : BitVec 32

/-- `OC_BLIT_CONFIGURE`, whose line buffer holds as many pixels as a line of the frame buffer is
wide. -/
structure Configure where
  pixelsPerScanLine : BitVec 32
  width : BitVec 32
  height : BitVec 32
  rotatedWidth : BitVec 32
  rotatedHeight : BitVec 32
  rotation : Nat
  frameBuffer : Uintn
  pixelFormat : PixelFormat
  pixelMasks : PixelBitmask
  pixelShl : Nat × Nat × Nat
  pixelShr : Nat × Nat × Nat

def highBitSet32 (mask : Pixel) : Int := if mask = 0 then -1 else mask.toNat.log2

/-- The shifts to the left and to the right of a channel in `BlitLibConfigurePixelFormat`. -/
def pixelShift (mask : Pixel) (index : Nat) : Nat × Nat :=
  let shift := highBitSet32 mask - 23 + index * 8
  if shift < 0 then (0, (-shift).toNat) else (shift.toNat, 0)

def bytesPerPixelOf (mask : PixelBitmask) : Int :=
  (highBitSet32 (mask.redMask ||| mask.greenMask ||| mask.blueMask ||| mask.reservedMask) + 7) / 8

def configureBase : Nat := 64

def ocBlitConfigure (frameBuffer : Uintn) (info : ModeInformation) (rotation : Nat)
    (configureSize : Nat) : Except EfiStatus Configure :=
  let bitMask := match info.pixelFormat with
    | .redGreenBlueReserved8BitPerColor => some rgbPixelMasks
    | .blueGreenRedReserved8BitPerColor => some bgrPixelMasks
    | .bitMask => some info.pixelInformation
    | .bltOnly => none
  match bitMask with
  | none => .error .unsupported
  | some bitMask =>
    if info.pixelsPerScanLine < info.horizontalResolution then .error .unsupported
    else if bytesPerPixelOf bitMask ≠ bytesPerPixel then .error .unsupported
    else if configureSize < configureBase + info.horizontalResolution.toNat * 4 then
      .error .bufferTooSmall
    else
      let red := pixelShift bitMask.redMask 0
      let green := pixelShift bitMask.greenMask 1
      let blue := pixelShift bitMask.blueMask 2
      let turned := rotation = 90 ∨ rotation = 270
      .ok {
        pixelsPerScanLine := info.pixelsPerScanLine
        width := info.horizontalResolution
        height := info.verticalResolution
        rotatedWidth :=
          if turned then info.verticalResolution else info.horizontalResolution
        rotatedHeight :=
          if turned then info.horizontalResolution else info.verticalResolution
        rotation := rotation
        frameBuffer := frameBuffer
        pixelFormat := info.pixelFormat
        pixelMasks := bitMask
        pixelShl := (red.1, green.1, blue.1)
        pixelShr := (red.2, green.2, blue.2) }

def Configure.convert (configure : Configure) (pixel : Pixel) : Pixel :=
  (((pixel <<< configure.pixelShl.1) >>> configure.pixelShr.1) &&&
      configure.pixelMasks.redMask) |||
    (((pixel <<< configure.pixelShl.2.1) >>> configure.pixelShr.2.1) &&&
      configure.pixelMasks.greenMask) |||
    (((pixel <<< configure.pixelShl.2.2) >>> configure.pixelShr.2.2) &&&
      configure.pixelMasks.blueMask)

/-- A pixel is stored so many bytes from the start of the frame buffer, or at an index of the
line buffer. -/
inductive Event where
  | frame (offset : Uintn) (pixel : Pixel)
  | line (index : Nat)
  deriving DecidableEq

def store (place : Uintn) (pixel : Pixel) : Event := .frame (4 * place) pixel

def storeAll (place : Uintn) (count : Nat) (pixel : Nat → Pixel) : List Event :=
  (List.range count).map fun index => store (place + BitVec.ofNat 64 index) (pixel index)

def fetch (bltBuffer : Uintn → Pixel) (place : Uintn) : Pixel := bltBuffer (4 * place)

def pixelsIn (size : Uintn) : Nat := size.toNat / bytesPerPixel

def rows (row : Uintn → Uintn → List Event) (step delta : Uintn) :
    Nat → Uintn → Uintn → List Event
  | 0, _, _ => []
  | height + 1, destination, source =>
    row destination source ++ rows row step delta height (destination + step) (source + delta)

def blockStarts (blockWidth size : Nat) : List Nat :=
  (List.range ((size + blockWidth - 1) / blockWidth)).map (blockWidth * ·)

def blocks (blockWidth width height : Nat) (move : Nat → Nat → Nat → Nat → Event) : List Event :=
  (blockStarts blockWidth height).flatMap fun index =>
    (blockStarts blockWidth width).flatMap fun index2 =>
      (List.range blockWidth).flatMap fun blockIndex =>
        (List.range blockWidth).map fun blockIndex2 => move index index2 blockIndex blockIndex2

structure Blit where
  sourceX : Uintn
  sourceY : Uintn
  destinationX : Uintn
  destinationY : Uintn
  width : Uintn
  height : Uintn
  delta : Uintn

def Blit.blockWidth (blit : Blit) (pixelsPerScanLine : BitVec 32) : Option Nat :=
  let low (size : Uintn) := size.toNat % u32
  match (low blit.sourceX ||| low blit.sourceY ||| low blit.destinationX |||
    low blit.destinationY ||| low blit.width ||| low blit.height ||| low blit.delta |||
    pixelsPerScanLine.toNat) % 16 with
  | 0 => some 16
  | 8 => some 8
  | 4 => some 4
  | 2 => some 2
  | _ => none

variable (configure : Configure) (bltBuffer : Uintn → Pixel) (blit : Blit)

def Configure.scanLine : Uintn := configure.pixelsPerScanLine.setWidth 64

def blitLibBufferToVideo0 : List Event :=
  let widthInBytes := blit.width * 4
  let destination := blit.destinationY * configure.scanLine + blit.destinationX
  let source := blit.sourceY * blit.delta + blit.sourceX
  if configure.pixelFormat = .blueGreenRedReserved8BitPerColor then
    rows (fun destination source =>
      storeAll destination (pixelsIn widthInBytes) fun index =>
        fetch bltBuffer (source + BitVec.ofNat 64 index))
      configure.scanLine blit.delta blit.height.toNat destination source
  else
    rows (fun destination source =>
      (List.range blit.width.toNat).map .line ++
        storeAll destination (pixelsIn widthInBytes) fun index =>
          configure.convert (fetch bltBuffer (source + BitVec.ofNat 64 index)))
      configure.scanLine blit.delta blit.height.toNat destination source

def column90 (destinationX : Uintn) (scanLine : Uintn) (count : Nat) (pixel : Uintn → Pixel)
    (destination source : Uintn) : List Event :=
  (List.range count).map fun index =>
    store (destination + (destinationX + BitVec.ofNat 64 index) * scanLine)
      (pixel (source + BitVec.ofNat 64 index))

def blitLibBufferToVideo90 : List Event :=
  let destination := configure.width.setWidth 64 - blit.destinationY - 1
  let source := blit.sourceY * blit.delta + blit.sourceX
  -- The loop runs from DestinationX to below DestinationX + Width.
  let count := (blit.destinationX + blit.width).toNat - blit.destinationX.toNat
  if configure.pixelFormat = .blueGreenRedReserved8BitPerColor then
    match blit.blockWidth configure.pixelsPerScanLine with
    | some blockWidth =>
      let destination := destination + blit.destinationX * configure.scanLine
      blocks blockWidth blit.width.toNat blit.height.toNat
        fun index index2 blockIndex blockIndex2 =>
          let a := source + BitVec.ofNat 64 index * blit.delta + BitVec.ofNat 64 index2
          let b := destination + BitVec.ofNat 64 index2 * configure.scanLine -
            BitVec.ofNat 64 index
          store (b + (BitVec.ofNat 64 blockIndex2 * configure.scanLine -
              BitVec.ofNat 64 blockIndex))
            (fetch bltBuffer
              (a + (BitVec.ofNat 64 blockIndex * blit.delta + BitVec.ofNat 64 blockIndex2)))
    | none =>
      rows (column90 blit.destinationX configure.scanLine count (fetch bltBuffer)) (-1)
        blit.delta blit.height.toNat destination source
  else
    rows (column90 blit.destinationX configure.scanLine count
        fun place => configure.convert (fetch bltBuffer place))
      (-1) blit.delta blit.height.toNat destination source

def reversed180 (width : Uintn) (pixel : Uintn → Pixel) (destination source : Uintn) :
    List Event :=
  (List.range width.toNat).map fun index =>
    store (destination + BitVec.ofNat 64 index)
      (pixel (source + (width - 1) - BitVec.ofNat 64 index))

def blitLibBufferToVideo180 : List Event :=
  let destinationX := configure.width.setWidth 64 - blit.destinationX - blit.width
  let destinationY := configure.height.setWidth 64 - blit.destinationY - blit.height
  let destination := (destinationY + (blit.height - 1)) * configure.scanLine + destinationX
  let source := blit.sourceY * blit.delta + blit.sourceX
  if configure.pixelFormat = .blueGreenRedReserved8BitPerColor then
    rows (reversed180 blit.width (fetch bltBuffer)) (-configure.scanLine) blit.delta
      blit.height.toNat destination source
  else
    rows (reversed180 blit.width fun place => configure.convert (fetch bltBuffer place))
      (-configure.scanLine) blit.delta blit.height.toNat destination source

def column270 (lastX : Uintn) (scanLine width : Uintn) (pixel : Uintn → Pixel)
    (destination source : Uintn) : List Event :=
  (List.range width.toNat).map fun index =>
    store (destination + (lastX - BitVec.ofNat 64 index) * scanLine)
      (pixel (source + BitVec.ofNat 64 index))

def blitLibBufferToVideo270 : List Event :=
  let destination := blit.destinationY
  let source := blit.sourceY * blit.delta + blit.sourceX
  let lastX := configure.height.setWidth 64 - blit.destinationX - 1
  if configure.pixelFormat = .blueGreenRedReserved8BitPerColor then
    match blit.blockWidth configure.pixelsPerScanLine with
    | some blockWidth =>
      let destination := destination + lastX * configure.scanLine
      blocks blockWidth blit.width.toNat blit.height.toNat
        fun index index2 blockIndex blockIndex2 =>
          let a := source + BitVec.ofNat 64 index * blit.delta + BitVec.ofNat 64 index2
          let b := destination - BitVec.ofNat 64 index2 * configure.scanLine +
            BitVec.ofNat 64 index
          store (b + (BitVec.ofNat 64 blockIndex -
              BitVec.ofNat 64 blockIndex2 * configure.scanLine))
            (fetch bltBuffer
              (a + (BitVec.ofNat 64 blockIndex * blit.delta + BitVec.ofNat 64 blockIndex2)))
    | none =>
      rows (column270 lastX configure.scanLine blit.width (fetch bltBuffer)) 1
        blit.delta blit.height.toNat destination source
  else
    -- The pointer goes back here, where the loop above moves it on.
    rows (column270 lastX configure.scanLine blit.width
        fun place => configure.convert (fetch bltBuffer place))
      (-1) blit.delta blit.height.toNat destination source

def Configure.rejects (x y width height : Uintn) : Bool :=
  (y + height).toNat > configure.rotatedHeight.toNat ||
    (x + width).toNat > configure.rotatedWidth.toNat || width == 0 || height == 0

def blitLibBufferToVideo : EfiStatus × List Event :=
  if configure.rejects blit.destinationX blit.destinationY blit.width blit.height then
    (.invalidParameter, [])
  else
    let blit := { blit with delta := if blit.delta = 0 then blit.width else blit.delta / 4 }
    (.success, match configure.rotation with
      | 0 => blitLibBufferToVideo0 configure bltBuffer blit
      | 90 => blitLibBufferToVideo90 configure bltBuffer blit
      | 180 => blitLibBufferToVideo180 configure bltBuffer blit
      | 270 => blitLibBufferToVideo270 configure bltBuffer blit
      | _ => [])

structure Region where
  destinationX : Uintn
  destinationY : Uintn
  width : Uintn
  height : Uintn

def Configure.unrotate (configure : Configure) (region : Region) : Region :=
  match configure.rotation with
  | 90 => {
      destinationX := configure.width.setWidth 64 - region.destinationY - region.height
      destinationY := region.destinationX
      width := region.height
      height := region.width }
  | 180 => { region with
      destinationX := configure.width.setWidth 64 - region.destinationX - region.width
      destinationY := configure.height.setWidth 64 - region.destinationY - region.height }
  | 270 => {
      destinationX := region.destinationY
      destinationY := configure.height.setWidth 64 - region.destinationX - region.width
      width := region.height
      height := region.width }
  | _ => region

def lowByteFill (pixel : Pixel) : Pixel :=
  let byte := pixel.extractLsb' 0 8
  byte ++ byte ++ byte ++ byte

def fillLine (width : Nat) : Nat → List Pixel → List Pixel
  | 0, line => line
  | copies + 1, line =>
    if line.length < width then
      fillLine width copies (line ++ line.take (min line.length (width - line.length)))
    else line

/-- A line whose start is aligned to 8 bytes: the fill is two pixels wide, but for what is left
over. -/
def fillWide (destination : Uintn) (sizeInBytes : Nat) (pixel : Pixel) : List Event :=
  let wideFill : BitVec 64 := pixel ++ pixel
  let wide := if sizeInBytes ≥ 8 then sizeInBytes / 8 * 8 else 0
  storeAll destination (wide / bytesPerPixel)
      (fun index => wideFill.extractLsb' (32 * (index % 2)) 32) ++
    storeAll (destination + BitVec.ofNat 64 (wide / bytesPerPixel))
      ((sizeInBytes - wide) / bytesPerPixel) fun _ => wideFill.extractLsb' 0 32

def fillLines (configure : Configure) (region : Region) (pixel : Pixel) :
    Nat → Uintn → Bool → List Event
  | 0, _, _ => []
  | lines + 1, indexY, lineBufferReady =>
    let destination := indexY * configure.scanLine + region.destinationX
    let sizeInBytes := (region.width * 4).toNat
    if (configure.frameBuffer + 4 * destination).toNat % 8 = 0 then
      fillWide destination sizeInBytes pixel ++
        fillLines configure region pixel lines (indexY + 1) lineBufferReady
    else
      let line := fillLine region.width.toNat region.width.toNat [pixel]
      (if lineBufferReady then [] else (List.range line.length).map .line) ++
        storeAll destination (sizeInBytes / bytesPerPixel) (fun index => line.getD index 0) ++
        fillLines configure region pixel lines (indexY + 1) true

def blitLibVideoFill (configure : Configure) (color : Pixel) (region : Region) :
    EfiStatus × List Event :=
  if configure.rejects region.destinationX region.destinationY region.width region.height then
    (.invalidParameter, [])
  else
    let region := configure.unrotate region
    let pixel := configure.convert color
    if region.destinationX = 0 ∧ region.width = configure.scanLine then
      let offset := region.destinationY * configure.scanLine
      let sizeInBytes := (region.width * 4 * region.height).toNat
      let wide := if sizeInBytes ≥ 8 then sizeInBytes / 4 * 4 else 0
      (.success, storeAll offset (wide / bytesPerPixel) (fun _ => pixel) ++
        storeAll (offset + BitVec.ofNat 64 (wide / bytesPerPixel))
          ((sizeInBytes - wide) / bytesPerPixel) fun _ => lowByteFill pixel)
    else
      -- The loop runs from DestinationY to below Height + DestinationY.
      let lines := (region.height + region.destinationY).toNat - region.destinationY.toNat
      (.success, fillLines configure region pixel lines region.destinationY false)

inductive Operation where
  | videoFill
  | bufferToVideo
  deriving DecidableEq

/-- `OcBlitRender` for the two operations that draw; a fill takes its colour from the start of
the BltBuffer. -/
def ocBlitRender (configure : Configure) (bltBuffer : Uintn → Pixel) (operation : Operation)
    (blit : Blit) : EfiStatus × List Event :=
  match operation with
  | .videoFill =>
    blitLibVideoFill configure (bltBuffer 0)
      ⟨blit.destinationX, blit.destinationY, blit.width, blit.height⟩
  | .bufferToVideo => blitLibBufferToVideo configure bltBuffer blit

end Source

end OpenCore.BlitVideo
