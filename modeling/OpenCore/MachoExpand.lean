import OpenCore.MachoImage
import OpenCore.TracedAction

/-!
`InternalMachoExpandImage`: the segments of a file are moved apart until each has the room
it takes in memory. The destination is its header, kept as the fields it is made of, and the
bytes behind the header. Copies that hit the header and updates of a table command that is
shorter than its structure are marked: from there on the fields no longer stand for the
bytes.
-/

namespace OpenCore.MachoExpand

open Base AddressSpace MachoHeader MachoImage TracedAction

structure Pass where
  calculateSizeOnly : Bool
  destinationSize : Nat
  strip : Bool
  sizeFits : destinationSize < u32

structure Expansion where
  currentDelta : Nat
  currentSize : Nat
  foundLinkedit : Bool
  fileOffset : Nat
  segments : List Segment
  symtab : Option Symtab
  dySymtab : Option DySymtab
  destination : Memory

/-- The first six are observations of a run. The others mark the steps that the
code takes without a check. -/
inductive Mark where
  | read (offset size : Nat)
  | headerWritten (size : Nat)
  | write (offset size : Nat)
  | difference (minuend subtrahend : Nat)
  | commandWritten (size commandSize : Nat)
  | stripAccess (offset size : Nat)
  /-- The header and its commands are taken from the file. -/
  | headerTaken
  /-- The header of an object is rounded up to whole pages. -/
  | headerAligned
  /-- A shift is rounded up to whole pages. -/
  | deltaAligned (delta : Nat)
  /-- A segment of an object moves behind the pages of the header, after segments
  that moved by a shift. -/
  | headerPassed (segment : Segment) (delta : Nat)
  /-- A table command is taken to have its full size. -/
  | tableCommand (place size commandSize : Nat)
  /-- The shifted offset of a table is aligned. -/
  | offsetAligned (alignment offset delta : Nat)
  /-- A table is copied from its offset to the shifted one. -/
  | tableCopied (offset delta size : Nat)
  /-- A segment is found to be __LINKEDIT, for the first time or not. -/
  | linkeditFound (again : Bool)
  /-- Load commands are moved up or cleared, after so much was taken off their size
  and they moved up by so much. -/
  | commandsStripped (takenOff movedUp : Nat)
  deriving DecidableEq

abbrev Expander := Action Expansion Unit Mark

section Arithmetic

/-- What `ALIGN_VALUE` adds to a 32-bit value, also for alignments that are no powers
of two. -/
def alignAddend (alignment value : Nat) : Nat :=
  wrapSub u32 alignment value &&& (alignment - 1)

def alignValue (alignment value : Nat) : Nat := (value + alignAddend alignment value) % u32

def baseOverflowTriAdd (modulus first second third : Nat) : Option Nat :=
  if first + second + third < modulus then some (first + second + third) else none

def nlistSize : MachX → Nat
  | .mach32 => 12
  | .mach64 => 16

def relocationInfoSize : Nat := 8

def shiftOffset (delta offset : Nat) : Nat :=
  if offset ≠ 0 then (offset + delta) % u32 else offset

def replaceBytes (destination : Memory) (offset size : Nat) (bytes : Nat → UInt8) : Memory :=
  fun place =>
    if offset ≤ place ∧ place < offset + size then bytes (place - offset) else destination place

end Arithmetic

variable (image : Image) (pass : Pass)

def headerSize : Nat := image.arch.headerSize + image.commandsSize

def headerSizeAligned : Nat :=
  if image.isObject then machoAlign u32 (headerSize image) else 0

section Header

def copyHeader : Expander Unit :=
  if pass.calculateSizeOnly then Action.emit [.headerTaken, .read 0 (headerSize image)]
  else if pass.destinationSize < headerSize image then Action.exit ()
  else Action.emit [.headerTaken, .read 0 (headerSize image), .headerWritten (headerSize image)]

def clearHeaderRest : Expander Unit :=
  if pass.calculateSizeOnly ∨ image.isObject = false then pure ()
  else if pass.destinationSize < headerSizeAligned image then Action.exit ()
  else do
    Action.emit [.headerAligned, .difference (headerSizeAligned image) (headerSize image),
      .write (headerSize image) (wrapSub u32 (headerSizeAligned image) (headerSize image))]
    Action.modify fun state => { state with
      destination := replaceBytes state.destination (headerSize image)
        (wrapSub u32 (headerSizeAligned image) (headerSize image)) fun _ => 0 }

end Header

section Segments

variable {place : Placement}

structure Placement where
  copyFileOffset : Nat
  copyFileSize : Nat
  copyVmSize : Nat
  originalDelta : Nat
  currentDelta : Nat
  currentSize : Nat

/-- `CopyFileOffset`, `CopyFileSize` and `CopyVmSize` with the shift, if their end
fits. -/
def placement (copyFileOffset copyFileSize copyVmSize originalDelta currentDelta : Nat) :
    Option Placement :=
  (baseOverflowTriAdd (limit image.arch) copyFileOffset currentDelta copyVmSize).map
    fun currentSize =>
      ⟨copyFileOffset, copyFileSize, copyVmSize, originalDelta, currentDelta, currentSize⟩

def besideHeader (segment : Segment) : Bool :=
  image.isObject && decide (segment.fileOffset ≤ headerSizeAligned image)

def headerDelta (segment : Segment) : Nat :=
  let delta := wrapSub u32 (headerSizeAligned image) (headerSize image)
  if headerSize image < segment.fileOffset then
    wrapSub u32 delta (segment.fileOffset - headerSize image)
  else delta

def placeSegment (delta : Nat) (segment : Segment) : Option Placement :=
  if segment.size < segment.fileSize then none
  else if besideHeader image segment then
    placement image segment.fileOffset segment.fileSize segment.size delta
      (headerDelta image segment)
  else if image.isObject = false ∧ segment.fileOffset ≤ headerSize image then
    let copyFileSize := wrapSub (limit image.arch) segment.fileSize (headerSize image)
    let copyVmSize := wrapSub (limit image.arch) segment.size (headerSize image)
    if segment.fileSize < copyFileSize ∨ segment.size < copyVmSize then none
    else placement image (headerSize image) copyFileSize copyVmSize delta (machoAlign u32 delta)
  else
    placement image segment.fileOffset segment.fileSize segment.size delta (machoAlign u32 delta)

theorem baseOverflowTriAdd_eq_some {modulus first second third total : Nat}
    (added : baseOverflowTriAdd modulus first second third = some total) :
    total = first + second + third := by
  rw [baseOverflowTriAdd] at added
  split at added
  · exact (Option.some.inj added).symm
  · cases added

theorem wrapSub_le_iff {modulus left right : Nat} (leftFits : left < modulus)
    (rightFits : right < modulus) : wrapSub modulus left right ≤ left ↔ right ≤ left := by
  constructor
  · intro small
    apply Nat.le_of_not_lt
    intro below
    have wrapped : wrapSub modulus left right = left + (modulus - right) := by
      rw [wrapSub, Nat.mod_eq_of_lt rightFits]
      exact Nat.mod_eq_of_lt (by omega)
    omega
  · intro ordered
    rw [wrapSub_of_le ordered leftFits]
    exact Nat.sub_le _ _

theorem placement_eq_some {copyFileOffset copyFileSize copyVmSize originalDelta currentDelta : Nat}
    (placed : placement image copyFileOffset copyFileSize copyVmSize originalDelta currentDelta =
      some place) :
    place = ⟨copyFileOffset, copyFileSize, copyVmSize, originalDelta, currentDelta,
      copyFileOffset + currentDelta + copyVmSize⟩ := by
  rw [placement] at placed
  obtain ⟨currentSize, added, rfl⟩ := Option.map_eq_some_iff.mp placed
  rw [baseOverflowTriAdd_eq_some added]

inductive Placed (delta : Nat) (segment : Segment) : Placement → Prop where
  | besideHeader (beside : besideHeader image segment = true) :
      Placed delta segment ⟨segment.fileOffset, segment.fileSize, segment.size, delta,
        headerDelta image segment,
        segment.fileOffset + headerDelta image segment + segment.size⟩
  | overHeader (notObject : image.isObject = false) (covers : segment.fileOffset ≤ headerSize image)
      (fits : headerSize image ≤ segment.fileSize) :
      Placed delta segment ⟨headerSize image, segment.fileSize - headerSize image,
        segment.size - headerSize image, delta, machoAlign u32 delta,
        headerSize image + machoAlign u32 delta + (segment.size - headerSize image)⟩
  | behindHeader (apart : besideHeader image segment = false)
      (behind : image.isObject = false → headerSize image < segment.fileOffset) :
      Placed delta segment ⟨segment.fileOffset, segment.fileSize, segment.size, delta,
        machoAlign u32 delta, segment.fileOffset + machoAlign u32 delta + segment.size⟩

theorem placeSegment_placed {delta : Nat} {segment : Segment}
    (member : segment ∈ image.segments) (placed : placeSegment image delta segment = some place) :
    segment.fileSize ≤ segment.size ∧ Placed image delta segment place := by
  have sizeFits := (image.addressesFit segment member).2
  have headerFits : headerSize image < limit image.arch :=
    lt_of_lt_of_le image.headerFits (limit_ge image.arch)
  rw [placeSegment] at placed
  split at placed
  · cases placed
  · rename_i sized
    have sized := Nat.le_of_not_lt sized
    refine ⟨sized, ?_⟩
    split at placed
    · rename_i beside
      rw [placement_eq_some image placed]
      exact .besideHeader beside
    · rename_i apart
      split at placed
      · rename_i covers
        simp only at placed
        split at placed
        · cases placed
        · rename_i fits
          rw [not_or, not_lt, not_lt, wrapSub_le_iff (by omega) headerFits,
            wrapSub_le_iff sizeFits headerFits] at fits
          rw [placement_eq_some image placed, wrapSub_of_le fits.1 (by omega),
            wrapSub_of_le fits.2 sizeFits]
          exact .overHeader covers.1 covers.2 fits.1
      · rename_i behind
        rw [placement_eq_some image placed]
        refine .behindHeader (Bool.eq_false_of_not_eq_true apart) ?_
        intro notObject
        exact Nat.lt_of_not_le fun covers => behind ⟨notObject, covers⟩

def checkRoom (currentSize : Nat) : Expander Unit :=
  if pass.calculateSizeOnly = false ∧ pass.destinationSize < currentSize then Action.exit ()
  else pure ()

def placementMark (segment : Segment) (delta : Nat) : Mark :=
  if besideHeader image segment then .headerPassed segment delta else .deltaAligned delta

def copyMarks (place : Placement) : List Mark :=
  [.difference place.currentDelta place.originalDelta,
    .write (place.copyFileOffset + place.originalDelta)
      (wrapSub u32 place.currentDelta place.originalDelta),
    .read place.copyFileOffset place.copyFileSize,
    .write (place.copyFileOffset + place.currentDelta) place.copyFileSize,
    .difference place.copyVmSize place.copyFileSize,
    .write (place.copyFileOffset + place.currentDelta + place.copyFileSize)
      (wrapSub (limit image.arch) place.copyVmSize place.copyFileSize)]

def placedBytes (place : Placement) (destination : Memory) : Memory :=
  let cleared := replaceBytes destination (place.copyFileOffset + place.originalDelta)
    (wrapSub u32 place.currentDelta place.originalDelta) fun _ => 0
  let copied := replaceBytes cleared (place.copyFileOffset + place.currentDelta)
    place.copyFileSize fun index => image.fileData (place.copyFileOffset + index)
  replaceBytes copied (place.copyFileOffset + place.currentDelta + place.copyFileSize)
    (wrapSub (limit image.arch) place.copyVmSize place.copyFileSize) fun _ => 0

def copySegment (segment : Segment) (place : Placement) : Expander Unit :=
  if pass.calculateSizeOnly then pure ()
  else do
    Action.emit (placementMark image segment place.originalDelta :: copyMarks image place)
    Action.modify fun state => { state with
      destination := placedBytes image place state.destination }

def notePlacement (segment : Segment) : Expander Unit :=
  if besideHeader image segment then do
    Action.emit [.headerAligned, .difference (headerSizeAligned image) (headerSize image),
      .difference (wrapSub u32 (headerSizeAligned image) (headerSize image))
        (segment.fileOffset - headerSize image)]
    Action.modify fun state => { state with fileOffset := headerSizeAligned image }
  else if image.isObject = false ∧ segment.fileOffset ≤ headerSize image then
    Action.emit [.difference segment.fileSize (headerSize image),
      .difference segment.size (headerSize image)]
  else pure ()

def checkAddress (firstAddress : Nat) (segment : Segment) (segmentOffset : Nat) : Expander Unit :=
  if image.isObject = false ∧
      wrapSub (limit image.arch) segment.virtualAddress segmentOffset ≠ firstAddress then
    Action.exit ()
  else pure ()

def placeSections : Nat → Nat → List Section → List Section
  | _, _, [] => []
  | currentDelta, copyFileOffset, part :: rest =>
    if part.offset = 0 then
      { part with offset := copyFileOffset % u32 } ::
        placeSections ((currentDelta + part.size % u32) % u32)
          ((copyFileOffset + part.size % u32) % limit image.arch) rest
    else
      let sectionOffset := (part.offset + currentDelta) % u32
      { part with offset := sectionOffset } ::
        placeSections currentDelta ((sectionOffset + part.size) % limit image.arch) rest

def shiftSymtab (delta : Nat) (symtab : Symtab) : Symtab :=
  { symtab with
    symbolsOffset := shiftOffset delta symtab.symbolsOffset
    stringsOffset := shiftOffset delta symtab.stringsOffset }

def shiftDySymtab (delta : Nat) (dySymtab : DySymtab) : DySymtab :=
  { dySymtab with
    tableOfContentsNumEntries := shiftOffset delta dySymtab.tableOfContentsNumEntries
    moduleTableFileOffset := shiftOffset delta dySymtab.moduleTableFileOffset
    referencedSymbolTableFileOffset := shiftOffset delta dySymtab.referencedSymbolTableFileOffset
    indirectSymbolsOffset := shiftOffset delta dySymtab.indirectSymbolsOffset
    externalRelocationsOffset := shiftOffset delta dySymtab.externalRelocationsOffset
    localRelocationsOffset := shiftOffset delta dySymtab.localRelocationsOffset }

def tableMarks : List Mark :=
  (image.symtab.toList.flatMap fun symtab =>
    [.tableCommand symtab.place symtabCommandSize symtab.commandSize,
      .commandWritten symtabCommandSize symtab.commandSize]) ++
  image.dySymtab.toList.flatMap fun dySymtab =>
    [.tableCommand dySymtab.place dySymtabCommandSize dySymtab.commandSize,
      .commandWritten dySymtabCommandSize dySymtab.commandSize]

def shiftTables (segment : Segment) (delta : Nat) : Expander Unit :=
  if segment.isLinkedit then do
    let before ← Action.get
    Action.emit [.linkeditFound before.foundLinkedit]
    Action.modify fun state => { state with foundLinkedit := true }
    if pass.calculateSizeOnly then pure ()
    else do
      Action.emit (tableMarks image)
      Action.modify fun state => { state with
        symtab := state.symtab.map (shiftSymtab delta)
        dySymtab := state.dySymtab.map (shiftDySymtab delta) }
  else pure ()

/-- The segment command of the destination; a pass for the size leaves it as it
is. -/
def movedSegment (segment : Segment) (delta segmentOffset : Nat) : Segment :=
  if pass.calculateSizeOnly then segment
  else
    { segment with
      fileOffset := segmentOffset
      fileSize := segment.size
      sections := placeSections image delta segmentOffset segment.sections }

def expandSegment (firstAddress : Nat) (segment : Segment) : Expander Unit := do
  let before ← Action.get
  match placeSegment image before.currentDelta segment with
  | none => Action.exit ()
  | some place => do
      checkRoom pass place.currentSize
      notePlacement image segment
      copySegment image pass segment place
      let segmentOffset := (segment.fileOffset + place.currentDelta) % limit image.arch
      checkAddress image firstAddress segment segmentOffset
      shiftTables image pass segment place.currentDelta
      Action.emit [.difference segment.size segment.fileSize]
      Action.modify fun state => { state with
        currentSize := place.currentSize
        currentDelta := (place.currentDelta + (segment.size - segment.fileSize) % u32) % u32
        segments := state.segments ++
          [movedSegment image pass segment place.currentDelta segmentOffset] }

def expandSegments (firstAddress : Nat) : List Segment → Expander Unit
  | [] => pure ()
  | segment :: rest => do
      expandSegment image pass firstAddress segment
      expandSegments firstAddress rest

def firstAddress : Nat := (image.segments.head?.map Segment.virtualAddress).getD 0

end Segments

section Tables

def alignTable (alignment offset : Nat) : Expander Unit := do
  let before ← Action.get
  let aligned := alignValue alignment ((offset + before.currentDelta) % u32)
  Action.emit [.offsetAligned alignment offset before.currentDelta, .difference aligned offset]
  Action.modify fun state => { state with currentDelta := wrapSub u32 aligned offset }

def copyTableBytes (offset delta size : Nat) : Expander Unit :=
  if pass.calculateSizeOnly then pure ()
  else do
    Action.emit [.tableCopied offset delta size, .read offset size, .write (offset + delta) size]
    Action.modify fun state => { state with
      destination := replaceBytes state.destination (offset + delta) size
        fun index => image.fileData (offset + index) }

def copyTable (offset size : Nat) : Expander Nat := do
  let before ← Action.get
  match baseOverflowTriAdd (limit image.arch) offset before.currentDelta size with
  | none => Action.exit ()
  | some currentSize => do
      checkRoom pass currentSize
      Action.modify fun state => { state with currentSize := currentSize }
      copyTableBytes image pass offset before.currentDelta size
      pure ((offset + before.currentDelta) % u32)

def copySectionRelocations (part : Section) : Expander Section :=
  if part.relocationsOffset ≠ 0 then do
    alignTable relocationInfoSize part.relocationsOffset
    let offset ← copyTable image pass part.relocationsOffset
      (part.numRelocations * relocationInfoSize % u32)
    pure (if pass.calculateSizeOnly then part else { part with relocationsOffset := offset })
  else pure part

def copySectionsRelocations : List Section → Expander (List Section)
  | [] => pure []
  | part :: rest => do
      let moved ← copySectionRelocations image pass part
      let others ← copySectionsRelocations rest
      pure (moved :: others)

def copySegmentsRelocations : List Segment → Expander (List Segment)
  | [] => pure []
  | segment :: rest => do
      let sections ← copySectionsRelocations image pass segment.sections
      let others ← copySegmentsRelocations rest
      pure ({ segment with sections := sections } :: others)

def copySymbols (symtab : Symtab) : Expander Unit :=
  if symtab.symbolsOffset ≠ 0 then do
    alignTable (nlistSize image.arch) symtab.symbolsOffset
    let offset ← copyTable image pass symtab.symbolsOffset
      (symtab.numSymbols * nlistSize image.arch % u32)
    if pass.calculateSizeOnly then pure ()
    else Action.modify fun state => { state with
      symtab := state.symtab.map fun moved => { moved with symbolsOffset := offset } }
  else pure ()

def copyStrings (symtab : Symtab) : Expander Unit :=
  if symtab.stringsOffset ≠ 0 then do
    let offset ← copyTable image pass symtab.stringsOffset symtab.stringsSize
    if pass.calculateSizeOnly then pure ()
    else Action.modify fun state => { state with
      symtab := state.symtab.map fun moved => { moved with stringsOffset := offset } }
  else pure ()

def takeSymtab (symtab : Symtab) : Expander Unit :=
  Action.emit (.tableCommand symtab.place symtabCommandSize symtab.commandSize ::
    .read symtab.place symtabCommandSize ::
    if pass.calculateSizeOnly then []
    else [.commandWritten symtabCommandSize symtab.commandSize])

def copySymtab : Expander Unit :=
  match image.symtab with
  | none => pure ()
  | some symtab => do
      takeSymtab pass symtab
      copySymbols image pass symtab
      copyStrings image pass symtab

/-- Without a __LINKEDIT the relocations of the sections, the symbols and the
strings are copied on their own. -/
def copyTables : Expander Unit := do
  let before ← Action.get
  if before.foundLinkedit then pure ()
  else do
    let segments ← copySegmentsRelocations image pass before.segments
    Action.modify fun state => { state with segments := segments }
    copySymtab image pass

end Tables

section Rest

def copyRaw : Expander Unit := do
  let before ← Action.get
  if before.currentSize = 0 then do
    checkRoom pass image.fileSize
    copyRawBytes
    Action.modify fun state => { state with currentSize := image.fileSize }
  else pure ()
where
  copyRawBytes : Expander Unit :=
    if pass.calculateSizeOnly then pure ()
    else do
      Action.emit [.difference image.fileSize (headerSize image),
        .read (headerSize image) (wrapSub u32 image.fileSize (headerSize image)),
        .write (headerSize image) (wrapSub u32 image.fileSize (headerSize image))]
      Action.modify fun state => { state with
        destination := replaceBytes state.destination (headerSize image)
          (wrapSub u32 image.fileSize (headerSize image))
          fun index => image.fileData (headerSize image + index) }

def loadCommandsToStrip : List Nat := [29, 34, 34 + 0x80000000, 38, 41, 43, 5]

/-- The locals of `InternalStripLoadCommands`, the header fields it changes, and for the
marks by how much the commands from `LoadCommand` on moved up. -/
structure Strip where
  numCommands : Nat
  commandsSize : Nat
  sizeOfLeftCommands : Nat
  loadCommand : Nat
  movedUp : Nat

/-- Bytes are moved up to `LoadCommand` or, without a source, cleared there. -/
def stripBytes (strip : Strip) (size : Nat) (source : Option Nat) : Expander Unit := do
  Action.emit
    (.commandsStripped (wrapSub u32 image.commandsSize strip.commandsSize) strip.movedUp ::
      .stripAccess strip.loadCommand size ::
      source.toList.map fun place => .stripAccess place size)
  Action.modify fun state => { state with
    destination := replaceBytes state.destination strip.loadCommand size fun index =>
      match source with
      | some place => state.destination (place + index)
      | none => 0 }

/-- The loop of `InternalStripLoadCommands` over the commands from `LoadCommand` on. A
command that is not the last one is overwritten by those behind it, and the size that is
taken off and the step to the next command are then those of the command moved here. -/
def stripCommands : Strip → List Command → Expander Strip
  | strip, [] => pure strip
  | strip, command :: rest =>
    let left := wrapSub u32 strip.sizeOfLeftCommands command.size
    if command.type ∈ loadCommandsToStrip then
      match rest with
      | [] => pure
          { strip with
            numCommands := strip.numCommands - 1
            commandsSize := wrapSub u32 strip.commandsSize command.size
            sizeOfLeftCommands := left
            loadCommand := strip.loadCommand + command.size }
      | moved :: others => do
          stripBytes image strip left (some (strip.loadCommand + command.size))
          stripCommands
            { numCommands := strip.numCommands - 1
              commandsSize := wrapSub u32 strip.commandsSize moved.size
              sizeOfLeftCommands := left
              loadCommand := strip.loadCommand + moved.size
              movedUp := strip.movedUp + command.size }
            others
    else
      stripCommands
        { strip with
          sizeOfLeftCommands := left
          loadCommand := strip.loadCommand + command.size }
        rest

theorem stripCommands_keep {strip : Strip} {command : Command} {rest : List Command}
    (kept : command.type ∉ loadCommandsToStrip) :
    stripCommands image strip (command :: rest) = stripCommands image
        { strip with
          sizeOfLeftCommands := wrapSub u32 strip.sizeOfLeftCommands command.size
          loadCommand := strip.loadCommand + command.size }
        rest := by
  cases rest with
  | nil => simp only [stripCommands, if_neg kept]
  | cons next others => rw [stripCommands, if_neg kept]

def internalStripLoadCommands : Expander Unit := do
  let strip ← stripCommands image
    { numCommands := image.commands.length
      commandsSize := image.commandsSize
      sizeOfLeftCommands := image.commandsSize
      loadCommand := image.arch.headerSize
      movedUp := 0 }
    image.commands
  stripBytes image strip (wrapSub u32 image.commandsSize strip.commandsSize) none

def stripIfWanted : Expander Unit :=
  if pass.calculateSizeOnly = false ∧ pass.strip = true then internalStripLoadCommands image
  else pure ()

end Rest

def internalMachoExpandImage : Expander Nat := do
  copyHeader image pass
  clearHeaderRest image pass
  expandSegments image pass (firstAddress image) image.segments
  copyTables image pass
  copyRaw image pass
  stripIfWanted image pass
  let after ← Action.get
  pure (after.currentSize % u32)

def initial (destination : Memory) : Expansion where
  currentDelta := 0
  currentSize := 0
  foundLinkedit := false
  fileOffset := 0
  segments := []
  symtab := image.symtab
  dySymtab := image.dySymtab
  destination := destination

end OpenCore.MachoExpand
