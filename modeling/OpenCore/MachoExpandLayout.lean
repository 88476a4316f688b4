import OpenCore.MachoExpandSafety
import OpenCore.MachoExpandSize
import Mathlib.Data.List.Forall2

/-!
What the expansion is for: every segment ends up at its address from that of the first one
on, with its bytes and zeros behind them, and the tables of __LINKEDIT go with it. The code
gets there for segments in any order, one of which may begin with the header. A step
disturbs this when it puts another byte into a segment that is done, or shifts the tables
again.
-/

namespace OpenCore.MachoExpandLayout

open Base AddressSpace MachoImage TracedAction MachoExpand MachoExpandSafety

def expectedOffset (image : Image) (segment : Segment) : Nat :=
  wrapSub (limit image.arch) segment.virtualAddress (firstAddress image)

def segmentByte (image : Image) (segment : Segment) (index : Nat) : UInt8 :=
  if index < segment.fileSize then image.fileData (segment.fileOffset + index) else 0

/-- A segment with its command in the destination. The bytes of the header are fields
there, so only those behind it are compared. -/
structure Moved (image : Image) (destination : Memory) (segment moved : Segment) : Prop where
  fileOffset : moved.fileOffset = expectedOffset image segment
  fileSize : moved.fileSize = segment.size
  bytes : ∀ index < segment.size, headerSize image ≤ expectedOffset image segment + index →
    destination (expectedOffset image segment + index) = segmentByte image segment index

def expectedDySymtab (delta : Nat) (dySymtab : DySymtab) : DySymtab :=
  { dySymtab with
    tableOfContentsFileOffset := shiftOffset delta dySymtab.tableOfContentsFileOffset
    moduleTableFileOffset := shiftOffset delta dySymtab.moduleTableFileOffset
    referencedSymbolTableFileOffset := shiftOffset delta dySymtab.referencedSymbolTableFileOffset
    indirectSymbolsOffset := shiftOffset delta dySymtab.indirectSymbolsOffset
    externalRelocationsOffset := shiftOffset delta dySymtab.externalRelocationsOffset
    localRelocationsOffset := shiftOffset delta dySymtab.localRelocationsOffset }

structure Expanded (image : Image) (final : Expansion) : Prop where
  segments : List.Forall₂ (Moved image final.destination) image.segments final.segments
  tables : ∀ segment ∈ image.segments, segment.isLinkedit = true →
    ∃ delta, segment.fileOffset + delta = expectedOffset image segment ∧
      final.symtab = image.symtab.map (shiftSymtab delta) ∧
      final.dySymtab = image.dySymtab.map (expectedDySymtab delta)

section Conditions

def shiftOf (image : Image) (segment : Segment) : Nat :=
  expectedOffset image segment - segment.fileOffset

/-- Bytes written from `start` up to `stop` are those that the segments have there. -/
def Agrees (image : Image) (segments : List Segment) (start stop : Nat)
    (bytes : Nat → UInt8) : Prop :=
  ∀ segment ∈ segments, ∀ index < segment.size,
    headerSize image ≤ expectedOffset image segment + index →
    start ≤ expectedOffset image segment + index →
    expectedOffset image segment + index < stop →
    bytes (expectedOffset image segment + index) = segmentByte image segment index

/-- What a segment brings along: zeros up to its place and its own bytes. -/
def placedByte (image : Image) (segment : Segment) (address : Nat) : UInt8 :=
  if address < expectedOffset image segment then 0
  else segmentByte image segment (address - expectedOffset image segment)

/-- No segment spoils one before it: it is written from its offset on, shifted as the one
before it left off. -/
def Unspoilt (image : Image) : Nat → List Segment → List Segment → Prop
  | _, _, [] => True
  | delta, done, segment :: rest =>
    Agrees image done (segment.fileOffset + delta) (expectedOffset image segment + segment.size)
        (placedByte image segment) ∧
      Unspoilt image (shiftOf image segment + (segment.size - segment.fileSize))
        (done ++ [segment]) rest

/-- A segment may cover the header, then it does not move. -/
structure Orderly (image : Image) : Prop where
  notObject : image.isObject = false
  header : ∀ segment ∈ image.segments,
    segment.fileOffset = 0 ∧ expectedOffset image segment = 0 ∨
      headerSize image < segment.fileOffset
  unspoilt : Unspoilt image 0 [] image.segments

def shiftTablesBy (delta : Nat) (tables : Option Symtab × Option DySymtab) :
    Option Symtab × Option DySymtab :=
  (tables.1.map (shiftSymtab delta), tables.2.map (shiftDySymtab delta))

/-- Shifting the tables once more, for another __LINKEDIT, makes no difference. -/
def Repeatable (image : Image) : Prop :=
  ∀ first ∈ image.segments, ∀ second ∈ image.segments, first.isLinkedit = true →
    second.isLinkedit = true →
    let tables := shiftTablesBy (shiftOf image first) (image.symtab, image.dySymtab)
    shiftTablesBy (shiftOf image second) tables = tables ∧
      tables = shiftTablesBy (shiftOf image second) (image.symtab, image.dySymtab)

instance (image : Image) : Decidable (Repeatable image) := by
  unfold Repeatable
  infer_instance

/-- The steps that leave the segments in place and the tables to one __LINKEDIT. A table
that is copied over the header or taken from a short command would change other fields. -/
def Undisturbed (image : Image) : Mark → Prop
  | .deltaAligned delta => delta + 4095 < u32
  | .tableCommand _ size commandSize => size ≤ commandSize
  | .tableCopied offset delta size =>
    size = 0 ∨ headerSize image ≤ offset + delta ∧ Agrees image image.segments (offset + delta)
      (offset + delta + size) fun address => image.fileData (address - delta)
  | .linkeditFound again => again = false ∨ Repeatable image
  | .commandsStripped takenOff movedUp => takenOff ≤ movedUp
  | _ => True

instance (image : Image) : DecidablePred (Undisturbed image)
  | .deltaAligned delta => inferInstanceAs (Decidable (delta + 4095 < u32))
  | .tableCommand _ size commandSize => inferInstanceAs (Decidable (size ≤ commandSize))
  | .tableCopied _ _ _ => by
    unfold Undisturbed Agrees
    infer_instance
  | .linkeditFound again => inferInstanceAs (Decidable (again = false ∨ Repeatable image))
  | .commandsStripped takenOff movedUp => inferInstanceAs (Decidable (takenOff ≤ movedUp))
  | .read _ _ | .headerWritten _ | .write _ _ | .difference _ _ | .commandWritten _ _
  | .stripAccess _ _ | .headerTaken | .headerAligned | .headerPassed _ _
  | .offsetAligned _ _ _ => isTrue trivial

/-- A table of contents stays where it is: there is none, or __LINKEDIT does not move. -/
def ContentsKept (image : Image) : Prop :=
  ∀ segment ∈ image.segments, segment.isLinkedit = true → ∀ dySymtab ∈ image.dySymtab,
    expectedOffset image segment = segment.fileOffset ∨
      dySymtab.tableOfContentsFileOffset = 0 ∧ dySymtab.tableOfContentsNumEntries = 0

end Conditions

section Arithmetic

theorem wrapSub_swap {modulus left right rest : Nat} (leftFits : left < modulus)
    (rightFits : right < modulus) (difference : wrapSub modulus left right = rest) :
    wrapSub modulus left rest = right := by
  rw [wrapSub_eq leftFits rightFits] at difference
  have restFits : rest < modulus := by
    rw [← difference]
    split <;> omega
  rw [wrapSub_eq leftFits restFits]
  split at difference
  · split <;> omega
  · split <;> omega

theorem shiftOffset_eq_self_iff {delta offset : Nat} (deltaFits : delta < u32)
    (offsetFits : offset < u32) : shiftOffset delta offset = offset ↔ delta = 0 ∨ offset = 0 := by
  rw [shiftOffset]
  simp only [u32_val] at *
  split <;> omega

end Arithmetic

section Bytes
variable {image : Image} {place : Placement} {destination : Memory}
variable {offset size address : Nat} {bytes : Nat → UInt8}

theorem replaceBytes_apart (apart : address < offset ∨ offset + size ≤ address) :
    replaceBytes destination offset size bytes address = destination address := by
  rw [replaceBytes, if_neg]
  omega

theorem replaceBytes_inside (above : offset ≤ address) (below : address < offset + size) :
    replaceBytes destination offset size bytes address = bytes (address - offset) := by
  rw [replaceBytes, if_pos ⟨above, below⟩]

variable (ordered : place.originalDelta ≤ place.currentDelta)
  (shiftFits : place.currentDelta < u32) (sized : place.copyFileSize ≤ place.copyVmSize)
  (vmFits : place.copyVmSize < limit image.arch)
include ordered shiftFits sized vmFits

theorem placedBytes_below {address : Nat}
    (below : address < place.copyFileOffset + place.originalDelta) :
    placedBytes image place destination address = destination address := by
  rw [placedBytes, wrapSub_of_le ordered shiftFits, wrapSub_of_le sized vmFits]
  rw [replaceBytes_apart (by omega), replaceBytes_apart (by omega), replaceBytes_apart (by omega)]

theorem placedBytes_above {address : Nat}
    (above : place.copyFileOffset + place.currentDelta + place.copyVmSize ≤ address) :
    placedBytes image place destination address = destination address := by
  rw [placedBytes, wrapSub_of_le ordered shiftFits, wrapSub_of_le sized vmFits]
  rw [replaceBytes_apart (by omega), replaceBytes_apart (by omega), replaceBytes_apart (by omega)]

theorem placedBytes_between {address : Nat}
    (above : place.copyFileOffset + place.originalDelta ≤ address)
    (below : address < place.copyFileOffset + place.currentDelta) :
    placedBytes image place destination address = 0 := by
  rw [placedBytes, wrapSub_of_le ordered shiftFits, wrapSub_of_le sized vmFits]
  rw [replaceBytes_apart (by omega), replaceBytes_apart (by omega),
    replaceBytes_inside above (by omega)]

theorem placedBytes_inside {address : Nat}
    (above : place.copyFileOffset + place.currentDelta ≤ address)
    (below : address < place.copyFileOffset + place.currentDelta + place.copyVmSize) :
    placedBytes image place destination address =
      if address < place.copyFileOffset + place.currentDelta + place.copyFileSize then
        image.fileData (address - place.currentDelta)
      else 0 := by
  rw [placedBytes, wrapSub_of_le ordered shiftFits, wrapSub_of_le sized vmFits]
  split
  · rw [replaceBytes_apart (by omega), replaceBytes_inside above (by omega)]
    congr 1
    omega
  · rw [replaceBytes_inside (by omega) (by omega)]

end Bytes

abbrev Keeps (image : Image) {α : Type} (action : Expander α) (post : α → Expansion → Prop)
    (state : Expansion) : Prop :=
  Ensures (Undisturbed image) (Undisturbed image) action post (fun _ _ => True) state

variable {image : Image} {pass : Pass} {state : Expansion}

theorem emit_keeps {marks : List Mark} :
    Keeps image (Action.emit marks)
      (fun _ final => All (Undisturbed image) marks ∧ final = state) state :=
  Ensures.emit Iff.rfl fun met => ⟨met, rfl⟩

section Segments

variable {segment : Segment} {delta : Nat} {done : List Segment} {place : Placement}

theorem checkRoom_keeps {size : Nat} (copying : pass.calculateSizeOnly = false) :
    Keeps image (checkRoom pass size)
      (fun _ final => final = state ∧ size ≤ pass.destinationSize) state := by
  apply Ensures.ite
  · intro _
    exact Ensures.exit trivial
  · intro room
    exact Ensures.pure ⟨rfl, Nat.le_of_not_lt fun short => room ⟨copying, short⟩⟩

section

variable (notObject : image.isObject = false)
include notObject

theorem not_besideHeader (segment : Segment) :
    besideHeader image segment = false := by
  rw [besideHeader, notObject, Bool.false_and]

theorem notePlacement_keeps :
    Keeps image (notePlacement image segment) (fun _ final => final = state) state := by
  rw [notePlacement, if_neg (ne_true_of_eq_false (not_besideHeader notObject segment))]
  apply Ensures.ite
  · intro _
    exact emit_keeps.imp fun _ _ met => met.2
  · intro _
    exact Ensures.pure rfl

theorem copySegment_keeps (copying : pass.calculateSizeOnly = false) :
    Keeps image (copySegment image pass segment place)
      (fun _ final => place.originalDelta + 4095 < u32 ∧ final = { state with
          destination := placedBytes image place state.destination }) state := by
  rw [copySegment, copying, if_neg Bool.false_ne_true]
  apply emit_keeps.bind
  rintro _ _ ⟨met, rfl⟩
  rw [all_cons, placementMark,
    if_neg (ne_true_of_eq_false (not_besideHeader notObject segment))] at met
  exact Ensures.modify ⟨met.1, rfl⟩

theorem checkAddress_keeps {segmentOffset : Nat} :
    Keeps image (checkAddress image (firstAddress image) segment segmentOffset)
      (fun _ final => final = state ∧
        wrapSub (limit image.arch) segment.virtualAddress segmentOffset = firstAddress image)
      state := by
  apply Ensures.ite
  · intro _
    exact Ensures.exit trivial
  · intro passed
    refine Ensures.pure ⟨rfl, ?_⟩
    by_contra differs
    exact passed ⟨notObject, differs⟩

end

inductive TablesShifted (image : Image) (segment : Segment) (delta : Nat) (before : Expansion) :
    Expansion → Prop where
  | other (plain : segment.isLinkedit = false) : TablesShifted image segment delta before before
  | linkedit (found : segment.isLinkedit = true)
      (once : before.foundLinkedit = false ∨ Repeatable image) :
      TablesShifted image segment delta before
        { before with
          foundLinkedit := true
          symtab := before.symtab.map (shiftSymtab delta)
          dySymtab := before.dySymtab.map (shiftDySymtab delta) }

theorem shiftTables_keeps (copying : pass.calculateSizeOnly = false) :
    Keeps image (shiftTables image pass segment delta)
      (fun _ final => TablesShifted image segment delta state final) state := by
  rw [shiftTables, copying]
  apply Ensures.ite
  · intro found
    apply Ensures.get_bind
    apply emit_keeps.bind
    rintro _ _ ⟨met, rfl⟩
    rw [all_cons] at met
    apply Ensures.modify_bind
    rw [if_neg Bool.false_ne_true]
    apply emit_keeps.bind
    rintro _ _ ⟨_, rfl⟩
    exact Ensures.modify (.linkedit found met.1)
  · intro plain
    exact Ensures.pure (.other (Bool.eq_false_of_not_eq_true plain))

/-- The placement of a segment from the segment's own side: of one that covers the header
only the part behind it is copied, and it does not move. -/
structure Spot (image : Image) (delta : Nat) (segment : Segment) (place : Placement) : Prop where
  originalDelta : place.originalDelta = delta
  ordered : delta ≤ place.currentDelta
  shiftFits : place.currentDelta < u32
  sized : place.copyFileSize ≤ place.copyVmSize
  vmFits : place.copyVmSize < limit image.arch
  start : segment.fileOffset ≤ place.copyFileOffset
  bytesEnd : place.copyFileOffset + place.copyFileSize = segment.fileOffset + segment.fileSize
  zerosEnd : place.copyFileOffset + place.copyVmSize = segment.fileOffset + segment.size
  apart : segment.fileOffset < place.copyFileOffset → place.currentDelta = 0
  behind : ∀ address, segment.fileOffset + place.currentDelta ≤ address →
    headerSize image ≤ address → place.copyFileOffset + place.currentDelta ≤ address

section

variable (placed : Placed image delta segment place) (member : segment ∈ image.segments)
  (orderly : Orderly image) (sized : segment.fileSize ≤ segment.size)
include placed member orderly sized

theorem placed_currentSize :
    place.currentSize = segment.fileOffset + place.currentDelta + segment.size := by
  cases placed with
  | besideHeader beside => rfl
  | overHeader notObject covers fits =>
    have header := orderly.header segment member
    simp only
    omega
  | behindHeader apart behind => rfl

theorem placed_spot (small : delta + 4095 < u32)
    (expected : expectedOffset image segment = segment.fileOffset + place.currentDelta) :
    Spot image delta segment place := by
  have sizeFits := (image.addressesFit segment member).2
  have grows := le_machoAlign_iff.mpr small
  cases placed with
  | besideHeader beside =>
    rw [not_besideHeader orderly.notObject] at beside
    cases beside
  | overHeader notObject covers fits =>
    simp only at expected
    have header := orderly.header segment member
    have zero : segment.fileOffset = 0 := by omega
    have aligned : machoAlign u32 delta = 0 := by omega
    constructor <;> simp only [aligned, zero]
    · omega
    · decide
    · omega
    · omega
    · omega
    · omega
    · omega
    · intro _
      trivial
    · intro address _ behind
      omega
  | behindHeader apart behind =>
    constructor <;> simp only
    · exact grows
    · exact machoAlign_lt delta
    · exact sized
    · exact sizeFits
    · exact le_refl _
    · omega
    · intro address above _
      exact above

end

theorem headerSize_pos (image : Image) : 0 < headerSize image := by
  rw [headerSize]
  cases image.arch with
  | mach32 => exact lt_of_lt_of_le (by decide) (Nat.le_add_right 28 _)
  | mach64 => exact lt_of_lt_of_le (by decide) (Nat.le_add_right 32 _)

theorem placed_filled {place : Placement}
    (placed : Placed image delta segment place) (orderly : Orderly image)
    (member : segment ∈ image.segments) : 0 < segment.fileOffset + segment.fileSize := by
  have header := headerSize_pos image
  have start := orderly.header segment member
  cases placed with
  | besideHeader beside =>
    rw [not_besideHeader orderly.notObject] at beside
    cases beside
  | overHeader notObject covers fits => omega
  | behindHeader apart behind =>
    have behind := behind orderly.notObject
    omega

structure Shifted (image : Image) (state : Expansion) (segment : Segment) : Prop where
  found : state.foundLinkedit = true
  moved : segment.fileOffset + shiftOf image segment = expectedOffset image segment
  fits : shiftOf image segment < u32
  tables : (state.symtab, state.dySymtab) =
    shiftTablesBy (shiftOf image segment) (image.symtab, image.dySymtab)

structure TablesDone (image : Image) (done : List Segment) (state : Expansion) : Prop where
  shifted : ∀ segment ∈ done, segment.isLinkedit = true → Shifted image state segment
  found : state.foundLinkedit = true → ∃ segment ∈ done, segment.isLinkedit = true
  unfound : state.foundLinkedit = false →
    (state.symtab, state.dySymtab) = (image.symtab, image.dySymtab)

theorem TablesDone.next {before final : Expansion} (tables : TablesDone image done before)
    (members : ∀ earlier ∈ done, earlier ∈ image.segments) (member : segment ∈ image.segments)
    (moved : segment.fileOffset + shiftOf image segment = expectedOffset image segment)
    (fits : shiftOf image segment < u32)
    (shifted : TablesShifted image segment (shiftOf image segment) before final) :
    TablesDone image (done ++ [segment]) final := by
  cases shifted with
  | other plain =>
    refine ⟨?_, ?_, tables.unfound⟩
    · intro later member linkedit
      rcases List.mem_append.mp member with earlier | last
      · exact tables.shifted later earlier linkedit
      · rw [List.mem_singleton.mp last, plain] at linkedit
        cases linkedit
    · intro found
      obtain ⟨earlier, member, linkedit⟩ := tables.found found
      exact ⟨earlier, List.mem_append_left _ member, linkedit⟩
  | linkedit linkedit once =>
    have own : shiftTablesBy (shiftOf image segment) (before.symtab, before.dySymtab) =
        shiftTablesBy (shiftOf image segment) (image.symtab, image.dySymtab) := by
      cases found : before.foundLinkedit with
      | false => rw [tables.unfound found]
      | true =>
        obtain ⟨earlier, earlierDone, earlierLinkedit⟩ := tables.found found
        obtain ⟨again, same⟩ := once.resolve_left (by simp [found]) earlier
          (members earlier earlierDone) segment member earlierLinkedit linkedit
        rw [(tables.shifted earlier earlierDone earlierLinkedit).tables, again, same]
    refine ⟨?_, ?_, ?_⟩
    · intro later listed laterLinkedit
      rcases List.mem_append.mp listed with earlier | last
      · obtain ⟨found, place, small, shifted⟩ := tables.shifted later earlier laterLinkedit
        refine ⟨rfl, place, small, own.trans ?_⟩
        have once := once.resolve_left (by simp [found])
        exact (once later (members later earlier) segment member laterLinkedit linkedit).2.symm
      · rw [List.mem_singleton.mp last]
        exact ⟨rfl, moved, fits, own⟩
    · intro _
      exact ⟨segment, List.mem_append_right _ (List.mem_singleton_self segment), linkedit⟩
    · intro unfound
      cases unfound

/-- The loop over the segments, with some of them done. -/
structure Laid (image : Image) (done : List Segment) (state : Expansion) : Prop where
  segments : List.Forall₂ (Moved image state.destination) done state.segments
  counted : done ≠ [] → 0 < state.currentSize
  tables : TablesDone image done state

theorem forall₂_moved_congr {destination other : Memory} {done moved : List Segment}
    (placed : List.Forall₂ (Moved image destination) done moved)
    (kept : ∀ segment ∈ done, ∀ index < segment.size,
      headerSize image ≤ expectedOffset image segment + index →
      other (expectedOffset image segment + index) =
          destination (expectedOffset image segment + index) ∨
        other (expectedOffset image segment + index) = segmentByte image segment index) :
    List.Forall₂ (Moved image other) done moved := by
  induction placed with
  | nil => exact .nil
  | cons head _ ih =>
    refine .cons ⟨head.fileOffset, head.fileSize, ?_⟩ (ih ?_)
    · intro index inside behind
      rcases kept _ List.mem_cons_self index inside behind with same | own
      · rw [same]
        exact head.bytes index inside behind
      · exact own
    · intro segment member
      exact kept segment (List.mem_cons_of_mem _ member)

theorem expectedOffset_eq (member : segment ∈ image.segments)
    (currentSize : place.currentSize = segment.fileOffset + place.currentDelta + segment.size)
    (room : place.currentSize ≤ pass.destinationSize)
    (checked : wrapSub (limit image.arch) segment.virtualAddress
      ((segment.fileOffset + place.currentDelta) % limit image.arch) = firstAddress image) :
    segment.fileOffset + place.currentDelta < limit image.arch ∧
      expectedOffset image segment = segment.fileOffset + place.currentDelta := by
  have fits := pass.sizeFits
  have wide := limit_ge image.arch
  have small : segment.fileOffset + place.currentDelta < limit image.arch := by omega
  rw [Nat.mod_eq_of_lt small] at checked
  exact ⟨small, wrapSub_swap (image.addressesFit segment member).1 small checked⟩

section Spot
variable {destination : Memory} (spot : Spot image delta segment place)
  (expected : expectedOffset image segment = segment.fileOffset + place.currentDelta)
include spot expected

theorem Spot.moved (copying : pass.calculateSizeOnly = false) :
    Moved image (placedBytes image place destination) segment
      (movedSegment image pass segment place.currentDelta
        (segment.fileOffset + place.currentDelta)) := by
  rw [movedSegment, copying, if_neg Bool.false_ne_true]
  refine ⟨expected.symm, rfl, ?_⟩
  intro index inside behind
  have zerosEnd := spot.zerosEnd
  have bytesEnd := spot.bytesEnd
  rw [expected] at behind ⊢
  rw [placedBytes_inside (spot.originalDelta ▸ spot.ordered) spot.shiftFits spot.sized spot.vmFits
    (spot.behind _ (Nat.le_add_right _ _) behind) (by omega), segmentByte]
  by_cases file : index < segment.fileSize
  · rw [if_pos file, if_pos (by omega)]
    congr 1
    omega
  · rw [if_neg file, if_neg (by omega)]

/-- A segment is written from its shifted offset to the end of its room. -/
theorem Spot.placedBytes_cases (address : Nat) :
    placedBytes image place destination address = destination address ∨
      segment.fileOffset + delta ≤ address ∧ address < expectedOffset image segment + segment.size ∧
        placedBytes image place destination address = placedByte image segment address := by
  have originalDelta := spot.originalDelta
  have ordered : place.originalDelta ≤ place.currentDelta := originalDelta ▸ spot.ordered
  have start := spot.start
  have apart := spot.apart
  have bytesEnd := spot.bytesEnd
  have zerosEnd := spot.zerosEnd
  rw [placedByte, expected]
  by_cases below : address < place.copyFileOffset + place.originalDelta
  · exact .inl (placedBytes_below ordered spot.shiftFits spot.sized spot.vmFits below)
  · by_cases between : address < place.copyFileOffset + place.currentDelta
    · refine .inr ⟨by omega, by omega, ?_⟩
      rw [placedBytes_between ordered spot.shiftFits spot.sized spot.vmFits (by omega) between,
        if_pos (by omega)]
    · by_cases inside : address < place.copyFileOffset + place.currentDelta + place.copyVmSize
      · refine .inr ⟨by omega, by omega, ?_⟩
        rw [placedBytes_inside ordered spot.shiftFits spot.sized spot.vmFits (by omega) inside,
          if_neg (show ¬ address < segment.fileOffset + place.currentDelta by omega), segmentByte]
        by_cases file : address < place.copyFileOffset + place.currentDelta + place.copyFileSize
        · rw [if_pos file, if_pos (by omega)]
          congr 1
          omega
        · rw [if_neg file, if_neg (by omega)]
      · exact .inl (placedBytes_above ordered spot.shiftFits spot.sized spot.vmFits (by omega))

end Spot

theorem Laid.next {final : Expansion} (laid : Laid image done state)
    (spot : Spot image state.currentDelta segment place)
    (copying : pass.calculateSizeOnly = false) (counted : 0 < place.currentSize)
    (members : ∀ earlier ∈ done, earlier ∈ image.segments) (member : segment ∈ image.segments)
    (unspoilt : Agrees image done (segment.fileOffset + state.currentDelta)
      (expectedOffset image segment + segment.size) (placedByte image segment))
    (expected : expectedOffset image segment = segment.fileOffset + place.currentDelta)
    (shifted : TablesShifted image segment place.currentDelta
      { state with destination := placedBytes image place state.destination } final) :
    Laid image (done ++ [segment])
      { final with
        currentSize := place.currentSize
        currentDelta := (place.currentDelta + (segment.size - segment.fileSize) % u32) % u32
        segments := final.segments ++ [movedSegment image pass segment place.currentDelta
          (segment.fileOffset + place.currentDelta)] } := by
  have shift : shiftOf image segment = place.currentDelta := by
    rw [shiftOf, expected, Nat.add_sub_cancel_left]
  have kept : final.segments = state.segments ∧
      final.destination = placedBytes image place state.destination := by
    cases shifted with
    | other plain => exact ⟨rfl, rfl⟩
    | linkedit found once => exact ⟨rfl, rfl⟩
  constructor
  · show List.Forall₂ (Moved image final.destination) (done ++ [segment]) (final.segments ++ _)
    rw [kept.1, kept.2]
    refine List.rel_append ?_ (.cons (spot.moved expected copying) .nil)
    apply forall₂_moved_congr laid.segments
    intro earlier listed index inside behind
    refine (spot.placedBytes_cases expected _).imp_right ?_
    rintro ⟨above, below, own⟩
    rw [own]
    exact unspoilt earlier listed index inside behind above below
  · intro _
    exact counted
  · have tables : TablesDone image done
        { state with destination := placedBytes image place state.destination } :=
      ⟨fun earlier listed linkedit =>
        have before := laid.tables.shifted earlier listed linkedit
        ⟨before.found, before.moved, before.fits, before.tables⟩,
        laid.tables.found, laid.tables.unfound⟩
    rw [← shift] at shifted
    have next := tables.next members member (by rw [shift, expected])
      (shift ▸ spot.shiftFits) shifted
    exact ⟨fun later listed linkedit =>
      have after := next.shifted later listed linkedit
      ⟨after.found, after.moved, after.fits, after.tables⟩, next.found, next.unfound⟩

theorem expandSegment_keeps (orderly : Orderly image) (copying : pass.calculateSizeOnly = false)
    (laid : Laid image done state)
    (members : ∀ earlier ∈ done, earlier ∈ image.segments) (member : segment ∈ image.segments)
    (unspoilt : Agrees image done (segment.fileOffset + state.currentDelta)
      (expectedOffset image segment + segment.size) (placedByte image segment)) :
    Keeps image (expandSegment image pass (firstAddress image) segment)
      (fun _ final => Laid image (done ++ [segment]) final ∧
        final.currentDelta = shiftOf image segment + (segment.size - segment.fileSize))
      state := by
  apply Ensures.get_bind
  split
  · exact Ensures.exit trivial
  · rename_i place found
    obtain ⟨sized, placed⟩ := placeSegment_placed image member found
    have original : place.originalDelta = state.currentDelta := by
      cases placed with
      | besideHeader beside => rfl
      | overHeader notObject covers fits => rfl
      | behindHeader apart behind => rfl
    have currentSize := placed_currentSize placed member orderly sized
    have filled := placed_filled placed orderly member
    apply (checkRoom_keeps copying).bind
    rintro _ _ ⟨rfl, room⟩
    apply (notePlacement_keeps orderly.notObject).bind
    rintro _ _ rfl
    apply (copySegment_keeps orderly.notObject copying).bind
    rintro _ _ ⟨small, rfl⟩
    rw [original] at small
    apply (checkAddress_keeps orderly.notObject).bind
    rintro _ _ ⟨rfl, checked⟩
    obtain ⟨offsetFits, expected⟩ := expectedOffset_eq member currentSize room checked
    have spot := placed_spot placed member orderly sized small expected
    apply (shiftTables_keeps copying).bind
    intro _ final shifted
    apply emit_keeps.bind
    rintro _ _ ⟨_, rfl⟩
    apply Ensures.modify
    simp only [Nat.mod_eq_of_lt offsetFits]
    refine ⟨laid.next spot copying (by omega) members member unspoilt expected shifted, ?_⟩
    have fits := pass.sizeFits
    rw [shiftOf, expected, Nat.add_sub_cancel_left,
      Nat.mod_eq_of_lt (show segment.size - segment.fileSize < u32 by omega),
      Nat.mod_eq_of_lt (by omega)]

theorem expandSegments_keeps {done rest : List Segment} (orderly : Orderly image)
    (copying : pass.calculateSizeOnly = false) (laid : Laid image done state)
    (members : ∀ segment ∈ done ++ rest, segment ∈ image.segments)
    (unspoilt : Unspoilt image state.currentDelta done rest) :
    Keeps image (expandSegments image pass (firstAddress image) rest)
      (fun _ final => Laid image (done ++ rest) final) state := by
  induction rest generalizing done state with
  | nil =>
    rw [List.append_nil]
    exact Ensures.pure laid
  | cons segment rest ih =>
    apply (expandSegment_keeps orderly copying laid
      (fun earlier member => members earlier (List.mem_append_left _ member))
      (members segment (List.mem_append_right _ List.mem_cons_self)) unspoilt.1).bind
    rintro _ final ⟨laid, delta⟩
    rw [List.append_cons] at members ⊢
    exact ih laid members (delta ▸ unspoilt.2)

end Segments

/-- A step beside the segments: it leaves their commands and the tables of __LINKEDIT as
they are, and writes no byte into them that is not theirs. -/
structure Beside (image : Image) (before final : Expansion) : Prop where
  segments : final.segments = before.segments
  bytes : ∀ segment ∈ image.segments, ∀ index < segment.size,
    headerSize image ≤ expectedOffset image segment + index →
    final.destination (expectedOffset image segment + index) =
        before.destination (expectedOffset image segment + index) ∨
      final.destination (expectedOffset image segment + index) = segmentByte image segment index
  counted : 0 < before.currentSize → 0 < final.currentSize
  foundLinkedit : final.foundLinkedit = before.foundLinkedit
  tables : before.foundLinkedit = true →
    final.symtab = before.symtab ∧ final.dySymtab = before.dySymtab

theorem Beside.refl (state : Expansion) : Beside image state state :=
  ⟨rfl, fun _ _ _ _ _ => .inl rfl, id, rfl, fun _ => ⟨rfl, rfl⟩⟩

theorem Beside.trans {before middle final : Expansion} (first : Beside image before middle)
    (second : Beside image middle final) : Beside image before final := by
  constructor
  · rw [second.segments, first.segments]
  · intro segment member index inside behind
    rcases second.bytes segment member index inside behind with same | own
    · rw [same]
      exact first.bytes segment member index inside behind
    · exact .inr own
  · intro positive
    exact second.counted (first.counted positive)
  · rw [second.foundLinkedit, first.foundLinkedit]
  · intro found
    obtain ⟨symtab, dySymtab⟩ := first.tables found
    obtain ⟨symtabAfter, dySymtabAfter⟩ := second.tables (first.foundLinkedit.trans found)
    exact ⟨symtabAfter.trans symtab, dySymtabAfter.trans dySymtab⟩

section Tables

variable {symtab : Symtab} {top : Nat}

theorem alignTable_keeps {alignment offset : Nat} :
    Keeps image (alignTable alignment offset) (fun _ final => Beside image state final)
      state := by
  apply Ensures.get_bind
  apply emit_keeps.bind
  rintro _ _ ⟨_, rfl⟩
  exact Ensures.modify ⟨rfl, fun _ _ _ _ _ => .inl rfl, id, rfl, fun _ => ⟨rfl, rfl⟩⟩

theorem copyTableBytes_keeps {offset delta size : Nat} :
    Keeps image (copyTableBytes image pass offset delta size)
      (fun _ final => Beside image state final) state := by
  apply Ensures.ite
  · intro _
    exact Ensures.pure (Beside.refl state)
  · intro _
    apply emit_keeps.bind
    rintro _ _ ⟨met, rfl⟩
    rw [all_cons] at met
    have apart := met.1
    apply Ensures.modify
    refine ⟨rfl, ?_, id, rfl, fun _ => ⟨rfl, rfl⟩⟩
    intro segment member index inside behind
    by_cases hit : offset + delta ≤ expectedOffset image segment + index ∧
        expectedOffset image segment + index < offset + delta + size
    · right
      rcases apart with empty | ⟨_, agrees⟩
      · omega
      · rw [← agrees segment member index inside behind hit.1 hit.2]
        simp only [replaceBytes_inside hit.1 hit.2]
        congr 1
        omega
    · left
      simp only [replaceBytes_apart (show expectedOffset image segment + index < offset + delta ∨
        offset + delta + size ≤ expectedOffset image segment + index by omega)]

theorem copyTable_keeps {offset size : Nat} (copying : pass.calculateSizeOnly = false)
    (present : offset ≠ 0) :
    Keeps image (copyTable image pass offset size) (fun _ final => Beside image state final)
      state := by
  apply Ensures.get_bind
  split
  · exact Ensures.exit trivial
  · rename_i currentSize added
    have positive : 0 < currentSize := by
      rw [baseOverflowTriAdd_eq_some added]
      omega
    apply (checkRoom_keeps copying).bind
    rintro _ _ ⟨rfl, _⟩
    apply Ensures.modify_bind
    apply copyTableBytes_keeps.bind
    intro _ final beside
    refine Ensures.pure (Beside.trans ?_ beside)
    exact ⟨rfl, fun _ _ _ _ _ => .inl rfl, fun _ => positive, rfl, fun _ => ⟨rfl, rfl⟩⟩

theorem copySectionRelocations_keeps {part : Section}
    (copying : pass.calculateSizeOnly = false) :
    Keeps image (copySectionRelocations image pass part)
      (fun _ final => Beside image state final) state := by
  apply Ensures.ite
  · intro present
    apply alignTable_keeps.bind
    intro _ _ aligned
    apply (copyTable_keeps copying present).bind
    intro _ _ copied
    exact Ensures.pure (aligned.trans copied)
  · intro _
    exact Ensures.pure (Beside.refl state)

theorem copySectionsRelocations_keeps {parts : List Section}
    (copying : pass.calculateSizeOnly = false) :
    Keeps image (copySectionsRelocations image pass parts)
      (fun _ final => Beside image state final) state := by
  induction parts generalizing state with
  | nil => exact Ensures.pure (Beside.refl state)
  | cons part rest ih =>
    apply (copySectionRelocations_keeps copying).bind
    intro _ _ first
    apply ih.bind
    intro _ _ later
    exact Ensures.pure (first.trans later)

def SameRoom (segment moved : Segment) : Prop :=
  moved.fileOffset = segment.fileOffset ∧ moved.fileSize = segment.fileSize

section

variable (copying : pass.calculateSizeOnly = false)
include copying

theorem copySegmentsRelocations_keeps {segments : List Segment} :
    Keeps image (copySegmentsRelocations image pass segments)
      (fun moved final => List.Forall₂ SameRoom segments moved ∧ Beside image state final)
      state := by
  induction segments generalizing state with
  | nil => exact Ensures.pure ⟨.nil, Beside.refl state⟩
  | cons segment rest ih =>
    apply (copySectionsRelocations_keeps copying).bind
    intro sections _ first
    apply ih.bind
    rintro others _ ⟨same, later⟩
    exact Ensures.pure ⟨.cons ⟨rfl, rfl⟩ same, first.trans later⟩

theorem copySymbols_keeps (absent : state.foundLinkedit = false) :
    Keeps image (copySymbols image pass symtab) (fun _ final => Beside image state final)
      state := by
  rw [copySymbols, copying]
  apply Ensures.ite
  · intro present
    apply alignTable_keeps.bind
    intro _ _ aligned
    apply (copyTable_keeps copying present).bind
    intro _ middle copied
    have beside := aligned.trans copied
    rw [if_neg Bool.false_ne_true]
    apply Ensures.modify
    refine ⟨beside.segments, beside.bytes, beside.counted, beside.foundLinkedit, ?_⟩
    intro found
    rw [absent] at found
    cases found
  · intro _
    exact Ensures.pure (Beside.refl state)

theorem copyStrings_keeps (absent : state.foundLinkedit = false) :
    Keeps image (copyStrings image pass symtab) (fun _ final => Beside image state final)
      state := by
  rw [copyStrings, copying]
  apply Ensures.ite
  · intro present
    apply (copyTable_keeps copying present).bind
    intro _ middle beside
    rw [if_neg Bool.false_ne_true]
    apply Ensures.modify
    refine ⟨beside.segments, beside.bytes, beside.counted, beside.foundLinkedit, ?_⟩
    intro found
    rw [absent] at found
    cases found
  · intro _
    exact Ensures.pure (Beside.refl state)

theorem copySymtab_keeps (absent : state.foundLinkedit = false) :
    Keeps image (copySymtab image pass) (fun _ final => Beside image state final)
      state := by
  rw [copySymtab]
  split
  · exact Ensures.pure (Beside.refl state)
  · rename_i symtab present
    apply emit_keeps.bind
    rintro _ _ ⟨_, rfl⟩
    apply (copySymbols_keeps copying absent).bind
    intro _ _ symbols
    apply (copyStrings_keeps copying (symbols.foundLinkedit.trans absent)).imp
    intro _ _ strings
    exact symbols.trans strings

end

structure Settled (image : Image) (state : Expansion) : Prop where
  segments : List.Forall₂ (Moved image state.destination) image.segments state.segments
  counted : image.segments ≠ [] → 0 < state.currentSize
  tables : ∀ segment ∈ image.segments, segment.isLinkedit = true →
    Shifted image state segment

theorem Settled.beside {before final : Expansion} (settled : Settled image before)
    (beside : Beside image before final) : Settled image final := by
  constructor
  · rw [beside.segments]
    exact forall₂_moved_congr settled.segments beside.bytes
  · intro some
    exact beside.counted (settled.counted some)
  · intro segment member linkedit
    obtain ⟨found, moved, fits, tables⟩ := settled.tables segment member linkedit
    obtain ⟨symtab, dySymtab⟩ := beside.tables found
    exact ⟨beside.foundLinkedit.trans found, moved, fits, by rw [symtab, dySymtab, tables]⟩

theorem forall₂_moved_sameRoom {destination : Memory} {segments moved others : List Segment}
    (placed : List.Forall₂ (Moved image destination) segments moved)
    (same : List.Forall₂ SameRoom moved others) :
    List.Forall₂ (Moved image destination) segments others := by
  induction placed generalizing others with
  | nil =>
    cases same
    exact .nil
  | cons head _ ih =>
    cases same with
    | cons room rest =>
      refine .cons ⟨room.1.trans head.fileOffset, room.2.trans head.fileSize, head.bytes⟩ ?_
      exact ih rest

theorem Laid.settled (laid : Laid image image.segments state) : Settled image state :=
  ⟨laid.segments, laid.counted, laid.tables.shifted⟩

theorem copyTables_keeps (copying : pass.calculateSizeOnly = false)
    (laid : Laid image image.segments state) :
    Keeps image (copyTables image pass) (fun _ final => Settled image final) state := by
  apply Ensures.get_bind
  apply Ensures.ite
  · intro _
    exact Ensures.pure laid.settled
  · intro absent
    have absent := Bool.eq_false_of_not_eq_true absent
    have plain : ∀ segment ∈ image.segments, ¬ segment.isLinkedit = true := by
      intro segment member linkedit
      have found := (laid.tables.shifted segment member linkedit).found
      rw [absent] at found
      cases found
    apply (copySegmentsRelocations_keeps copying).bind
    rintro segments middle ⟨same, beside⟩
    apply Ensures.modify_bind
    have stillAbsent : ({ middle with segments := segments } : Expansion).foundLinkedit = false :=
      beside.foundLinkedit.trans absent
    apply (copySymtab_keeps copying stillAbsent).imp
    intro _ final later
    have copied : Settled image { middle with segments := segments } := by
      refine ⟨?_, ?_, fun segment member linkedit => absurd linkedit (plain segment member)⟩
      · exact forall₂_moved_sameRoom (forall₂_moved_congr laid.segments beside.bytes) same
      · intro some
        exact beside.counted (laid.counted some)
    exact copied.beside later

end Tables

section Rest

theorem copyRaw_keeps (copying : pass.calculateSizeOnly = false)
    (counted : image.segments ≠ [] → 0 < state.currentSize) :
    Keeps image (copyRaw image pass) (fun _ final => Beside image state final)
      state := by
  apply Ensures.get_bind
  apply Ensures.ite
  · intro uncounted
    have none : image.segments = [] := by
      by_contra some
      have positive := counted some
      omega
    apply (checkRoom_keeps copying).bind
    rintro _ _ ⟨rfl, _⟩
    have copied {state : Expansion} : Keeps image (copyRaw.copyRawBytes image pass)
        (fun _ final => ∃ destination, final = { state with destination := destination })
        state := by
      apply Ensures.ite
      · intro _
        exact Ensures.pure ⟨state.destination, rfl⟩
      · intro _
        apply emit_keeps.bind
        rintro _ _ ⟨_, rfl⟩
        exact Ensures.modify ⟨_, rfl⟩
    apply copied.bind
    rintro _ _ ⟨destination, rfl⟩
    apply Ensures.modify
    refine ⟨rfl, ?_, ?_, rfl, fun _ => ⟨rfl, rfl⟩⟩
    · intro segment member
      rw [none] at member
      cases member
    · intro positive
      omega
  · intro _
    exact Ensures.pure (Beside.refl _)

def BelowHeader (image : Image) (before final : Expansion) : Prop :=
  ∃ destination, final = { before with destination := destination } ∧
    ∀ address, headerSize image ≤ address → destination address = before.destination address

theorem BelowHeader.trans {before middle final : Expansion}
    (first : BelowHeader image before middle) (second : BelowHeader image middle final) :
    BelowHeader image before final := by
  obtain ⟨destination, rfl, same⟩ := first
  obtain ⟨other, rfl, sameAfter⟩ := second
  refine ⟨other, rfl, ?_⟩
  intro address behind
  rw [sameAfter address behind, ← same address behind]

theorem stripBytes_keeps {strip : Strip} {size : Nat} {source : Option Nat}
    (below : wrapSub u32 image.commandsSize strip.commandsSize ≤ strip.movedUp →
      strip.loadCommand + size ≤ headerSize image) :
    Keeps image (stripBytes image strip size source)
      (fun _ final => BelowHeader image state final) state := by
  apply emit_keeps.bind
  rintro _ _ ⟨met, rfl⟩
  rw [all_cons] at met
  apply Ensures.modify
  refine ⟨_, rfl, ?_⟩
  intro address behind
  have bound := below met.1
  exact replaceBytes_apart (.inr (by omega))

theorem stripCommands_keeps {strip : Strip} {commands : List Command}
    (stripping : Stripping image strip (commands.map Command.size).sum) :
    Keeps image (stripCommands image strip commands)
      (fun strip final => Stripped image strip ∧ BelowHeader image state final)
      state := by
  induction strip, commands using stripCommands.induct generalizing state with
  | case1 strip =>
    rw [stripCommands]
    exact Ensures.pure ⟨⟨stripping.takenOff, stripping.place⟩, _, rfl, fun _ _ => rfl⟩
  | case2 strip command listed =>
    rw [stripCommands, if_pos listed]
    exact Ensures.pure ⟨stripping.last, _, rfl, fun _ _ => rfl⟩
  | case3 strip command left listed moved others =>
    rename_i ih
    rw [stripCommands, if_pos listed]
    have moves := stripping.left_sub
    have taken := stripping.taken
    have inside := stripping
    obtain ⟨counted, takenOff, counts, place⟩ := inside
    simp only [List.map_cons, List.sum_cons] at counted takenOff counts place
    have stripped : Keeps image
        (stripBytes image strip (wrapSub u32 strip.sizeOfLeftCommands command.size)
          (some (strip.loadCommand + command.size)))
        (fun _ final => BelowHeader image state final) state := by
      apply stripBytes_keeps
      rw [moves, taken]
      omega
    apply stripped.bind
    intro _ middle first
    apply (ih stripping.replace).imp
    rintro _ final ⟨stripped, later⟩
    exact ⟨stripped, first.trans later⟩
  | case4 strip command rest left kept =>
    rename_i ih
    rw [stripCommands_keep image kept]
    exact ih stripping.keep

theorem stripIfWanted_keeps :
    Keeps image (stripIfWanted image pass) (fun _ final => Beside image state final)
      state := by
  apply Ensures.ite
  · intro _
    have stripped : Keeps image (internalStripLoadCommands image)
        (fun _ final => BelowHeader image state final) state := by
      apply (stripCommands_keeps (stripping_start image)).bind
      rintro strip middle ⟨⟨takenOff, place⟩, first⟩
      have cleared : Keeps image
          (stripBytes image strip (wrapSub u32 image.commandsSize strip.commandsSize) none)
          (fun _ final => BelowHeader image middle final) middle := by
        apply stripBytes_keeps
        omega
      apply cleared.imp
      intro _ _ later
      exact first.trans later
    apply stripped.imp
    rintro _ _ ⟨destination, rfl, same⟩
    refine ⟨rfl, ?_, id, rfl, fun _ => ⟨rfl, rfl⟩⟩
    intro segment member index inside behind
    exact .inl (same _ behind)
  · intro _
    exact Ensures.pure (Beside.refl state)

end Rest

theorem copyHeader_keeps :
    Keeps image (copyHeader image pass) (fun _ final => final = state) state := by
  apply Ensures.ite
  · intro _
    exact Ensures.emit Iff.rfl fun _ => rfl
  · intro _
    apply Ensures.ite
    · intro _
      exact Ensures.exit trivial
    · intro _
      exact Ensures.emit Iff.rfl fun _ => rfl

theorem clearHeaderRest_keeps (notObject : image.isObject = false) :
    Keeps image (clearHeaderRest image pass) (fun _ final => final = state) state := by
  rw [clearHeaderRest, if_pos (Or.inr notObject)]
  exact Ensures.pure rfl

theorem laid_initial (image : Image) (destination : Memory) :
    Laid image [] (initial image destination) := by
  refine ⟨.nil, fun some => absurd rfl some, ?_, ?_, fun _ => rfl⟩
  · intro segment member
    cases member
  · intro found
    cases found

theorem internalMachoExpandImage_keeps {destination : Memory} (orderly : Orderly image)
    (copying : pass.calculateSizeOnly = false) :
    Keeps image (internalMachoExpandImage image pass) (fun _ final => Settled image final)
      (initial image destination) := by
  apply copyHeader_keeps.bind
  rintro _ _ rfl
  apply (clearHeaderRest_keeps orderly.notObject).bind
  rintro _ _ rfl
  apply (expandSegments_keeps orderly copying (laid_initial image destination)
    (fun _ member => member) orderly.unspoilt).bind
  intro _ _ laid
  apply (copyTables_keeps copying laid).bind
  intro _ _ settled
  apply (copyRaw_keeps copying settled.counted).bind
  intro _ _ beside
  have settled := settled.beside beside
  apply stripIfWanted_keeps.bind
  intro _ _ beside
  have settled := settled.beside beside
  apply Ensures.get_bind
  exact Ensures.pure settled

section Contents

theorem expectedDySymtab_eq_iff {delta : Nat} {dySymtab : DySymtab} (fits : delta < u32)
    (contentsFit : dySymtab.tableOfContentsFileOffset < u32 ∧
      dySymtab.tableOfContentsNumEntries < u32) :
    shiftDySymtab delta dySymtab = expectedDySymtab delta dySymtab ↔
      delta = 0 ∨ dySymtab.tableOfContentsFileOffset = 0 ∧
        dySymtab.tableOfContentsNumEntries = 0 := by
  have fields : shiftDySymtab delta dySymtab = expectedDySymtab delta dySymtab ↔
      shiftOffset delta dySymtab.tableOfContentsFileOffset = dySymtab.tableOfContentsFileOffset ∧
        shiftOffset delta dySymtab.tableOfContentsNumEntries =
          dySymtab.tableOfContentsNumEntries := by
    rw [shiftDySymtab, expectedDySymtab, DySymtab.mk.injEq]
    simp only [true_and, and_true]
    constructor
    · rintro ⟨offset, entries⟩
      exact ⟨offset.symm, entries⟩
    · rintro ⟨offset, entries⟩
      exact ⟨offset.symm, entries⟩
  rw [fields, shiftOffset_eq_self_iff fits contentsFit.1, shiftOffset_eq_self_iff fits contentsFit.2]
  tauto

theorem Settled.expanded_iff (settled : Settled image state) :
    Expanded image state ↔ ContentsKept image := by
  constructor
  · intro expanded segment member linkedit dySymtab present
    obtain ⟨delta, moved, _, tables⟩ := expanded.tables segment member linkedit
    obtain ⟨_, placed, fits, shifted⟩ := settled.tables segment member linkedit
    have same : shiftOf image segment = delta := by omega
    rw [same] at fits shifted
    rw [(Prod.mk.inj shifted).2, present, Option.map_some, Option.map_some, Option.some.injEq,
      expectedDySymtab_eq_iff fits (image.contentsFit dySymtab present)] at tables
    rcases tables with unshifted | absent
    · exact .inl (by omega)
    · exact .inr absent
  · intro kept
    refine ⟨settled.segments, ?_⟩
    intro segment member linkedit
    obtain ⟨_, placed, fits, shifted⟩ := settled.tables segment member linkedit
    obtain ⟨symtab, dySymtab⟩ := Prod.mk.inj shifted
    refine ⟨shiftOf image segment, placed, symtab, ?_⟩
    rw [dySymtab]
    cases present : image.dySymtab with
    | none => rfl
    | some dySymtab =>
      rw [Option.map_some, Option.map_some, Option.some.injEq,
        expectedDySymtab_eq_iff fits (image.contentsFit dySymtab present)]
      rcases kept segment member linkedit dySymtab present with unmoved | absent
      · exact .inl (by omega)
      · exact .inr absent

end Contents

/-- A copy that ends, of a file whose segments do not spoil each other and in a run that
disturbs none of them: its size is the one the other pass calculates, and the image serves its
purpose exactly when no table of contents had to move. -/
theorem internalMachoExpandImage_expanded_iff (image : Image) (pass sizePass : Pass)
    (destination : Memory) (size : Nat) (copying : pass.calculateSizeOnly = false)
    (sizeOnly : sizePass.calculateSizeOnly = true) (orderly : Orderly image)
    (ended : (internalMachoExpandImage image pass).result (initial image destination) = .ok size)
    (undisturbed : ∀ mark ∈ (internalMachoExpandImage image pass).marks (initial image destination),
      Undisturbed image mark) :
    Expanded image ((internalMachoExpandImage image pass).final (initial image destination)) ∧
      (internalMachoExpandImage image sizePass).result (initial image destination) = .ok size ↔
    ContentsKept image := by
  have settled : Settled image
      ((internalMachoExpandImage image pass).final (initial image destination)) :=
    (internalMachoExpandImage_keeps orderly copying).final_of_result undisturbed ended
  have sameSize : (internalMachoExpandImage image sizePass).result (initial image destination) =
      .ok size := by
    have reached : (internalMachoExpandImage image pass (initial image destination)).1 =
        (.ok size, (internalMachoExpandImage image pass).final (initial image destination)) :=
      Prod.ext ended rfl
    obtain ⟨other, last, otherEnds, rfl⟩ :=
      MachoExpandSize.internalMachoExpandImage_follows copying sizeOnly size _ reached
    rw [Action.result, otherEnds]
  rw [settled.expanded_iff]
  exact and_iff_left sameSize

/-- A 64-bit kext of two pages, a __TEXT of two pages in memory and a __LINKEDIT behind it,
with a table of contents. -/
def twoSegments (contentsOffset contentsEntries : UInt32) : Image where
  arch := .mach64
  fileData := fun _ => 0x90
  fileSize := 8192
  isObject := false
  commandsSize := 248
  commands := [⟨25, 72⟩, ⟨25, 72⟩, ⟨symtabCommandType, 24⟩, ⟨dySymtabCommandType, 80⟩]
  segments :=
    [⟨false, 0x1000, 8192, 0, 4096, []⟩,
      ⟨true, 0x3000, 4096, 4096, 4096, []⟩]
  symtab := some ⟨176, 24, 4096, 1, 4112, 16⟩
  dySymtab := some ⟨200, 80, 0, 0, 0, 1, 0, 0, contentsOffset.toNat, contentsEntries.toNat,
    0, 0, 0, 0, 0, 0, 0, 0, 0, 0⟩
  fileSizeFits := by decide
  headerFits := by decide
  commandsTiled := rfl
  segmentsInside := by decide
  addressesFit := by decide
  symtabInside := by
    rintro table ⟨⟩
    decide
  dySymtabInside := by
    rintro table ⟨⟩
    exact le_refl 280
  contentsFit := by
    rintro table ⟨⟩
    exact ⟨contentsOffset.toNat_lt, contentsEntries.toNat_lt⟩

/-- Without a table of contents the kext expands to three pages. -/
theorem twoSegments_expanded :
    let image := twoSegments 0 0
    let start := initial image fun _ => 0
    Expanded image
        ((internalMachoExpandImage image ⟨false, 12288, false, by decide⟩).final start) ∧
      (internalMachoExpandImage image ⟨true, 0, false, by decide⟩).result start = .ok 12288 := by
  intro image start
  have orderly : Orderly image := by
    refine ⟨rfl, by decide, ?_, ?_, trivial⟩
    · intro segment member
      cases member
    · intro segment member index inside _ above _
      cases List.mem_singleton.mp member
      have place : expectedOffset image ⟨false, 0x1000, 8192, 0, 4096, []⟩ = 0 := by decide
      simp only [shiftOf, place] at inside above
      omega
  apply (internalMachoExpandImage_expanded_iff image _ _ (fun _ => 0) 12288 rfl rfl orderly
    (by decide) (by decide)).mpr
  rintro segment member linkedit table ⟨⟩
  exact .inr ⟨rfl, rfl⟩

/-- With one, its number of entries grows by the shift and its offset stays. -/
theorem twoSegments_contents_shifted :
    let image := twoSegments 4096 1
    let start := initial image fun _ => 0
    let state := internalMachoExpandImage image ⟨false, 12288, false, by decide⟩
    state.result start = .ok 12288 ∧
      ((state.final start).dySymtab.map fun dySymtab =>
        (dySymtab.tableOfContentsFileOffset, dySymtab.tableOfContentsNumEntries)) =
          some (4096, 4097) ∧
      ¬ Expanded image (state.final start) := by
  intro image start state
  have contents : ((state.final start).dySymtab.map fun dySymtab =>
      dySymtab.tableOfContentsNumEntries) = some 4097 := by
    decide
  refine ⟨by decide, by decide, ?_⟩
  intro expanded
  obtain ⟨delta, _, _, tables⟩ := expanded.tables ⟨true, 0x3000, 4096, 4096, 4096, []⟩
    (List.mem_cons_of_mem _ List.mem_cons_self) rfl
  rw [tables] at contents
  cases contents

end OpenCore.MachoExpandLayout
