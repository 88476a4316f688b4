import OpenCore.MachoExpand

/-!
The bounds of the expansion. What a pass may do is said of its observations: it reads
the file, writes the destination, leaves the header alone and takes no difference
below zero. The checks of the code give this for the segments of files that are no
objects; the rest hangs on the steps that are marked, and the two agree on every run.
-/

namespace OpenCore.MachoExpandSafety

open Base AddressSpace MachoHeader MachoImage TracedAction MachoExpand

variable (image : Image) (pass : Pass)

def Allowed : Mark → Prop
  | .read offset size => size = 0 ∨ offset + size ≤ image.fileSize
  | .headerWritten size => size ≤ pass.destinationSize
  | .write offset size =>
    size = 0 ∨ headerSize image ≤ offset ∧ offset + size ≤ pass.destinationSize
  | .difference minuend subtrahend => subtrahend ≤ minuend
  | .commandWritten size commandSize => size ≤ commandSize
  | .stripAccess offset size => size = 0 ∨ offset + size ≤ pass.destinationSize
  | _ => True

/-- A segment of an object behind the pages of the header: its shift is not below the
one before, and its gap, its bytes and its zeros begin behind the header. -/
structure PassesHeader (segment : Segment) (delta : Nat) : Prop where
  ordered : delta ≤ headerDelta image segment
  gap : delta < headerDelta image segment → headerSize image ≤ segment.fileOffset + delta
  bytes : 0 < segment.fileSize →
    headerSize image ≤ segment.fileOffset + headerDelta image segment
  zeros : segment.fileSize < segment.size →
    headerSize image ≤ segment.fileOffset + headerDelta image segment + segment.fileSize

def Meets : Mark → Prop
  | .headerTaken => headerSize image ≤ image.fileSize
  | .headerAligned => headerSize image + 4095 < u32
  | .deltaAligned delta => delta + 4095 < u32
  | .headerPassed segment delta => PassesHeader image segment delta
  | .tableCommand place size commandSize =>
    if pass.calculateSizeOnly then place + size ≤ image.fileSize else size ≤ commandSize
  | .offsetAligned alignment offset delta =>
    offset + (delta + alignAddend alignment ((offset + delta) % u32)) % u32 < u32
  | .tableCopied offset delta size =>
    size = 0 ∨ offset + size ≤ image.fileSize ∧ headerSize image ≤ offset + delta
  | .commandsStripped takenOff movedUp =>
    headerSize image + takenOff ≤ pass.destinationSize + movedUp
  | _ => True

abbrev Runs {α : Type} (action : Expander α) (post : α → Expansion → Prop)
    (state : Expansion) : Prop :=
  Ensures (Meets image pass) (Allowed image pass) action post (fun _ _ => True) state

section Arithmetic

theorem le_machoAlign_iff {value : Nat} : value ≤ machoAlign u32 value ↔ value + 4095 < u32 := by
  rw [machoAlign]
  simp only [machoPageSize_val, u32_val]
  omega

theorem le_alignValue_iff {alignment offset delta : Nat} :
    offset ≤ alignValue alignment ((offset + delta) % u32) ↔
      offset + (delta + alignAddend alignment ((offset + delta) % u32)) % u32 < u32 := by
  rw [alignValue]
  generalize alignAddend alignment ((offset + delta) % u32) = addend
  simp only [u32_val]
  omega

theorem machoAlign_lt (value : Nat) : machoAlign u32 value < u32 := by
  apply Nat.mod_lt
  decide

end Arithmetic

variable {image pass} {state : Expansion}

theorem emit_spec {marks : List Mark}
    (agree : All (Meets image pass) marks ↔ All (Allowed image pass) marks) :
    Runs image pass (Action.emit marks) (fun _ _ => True) state :=
  Ensures.emit agree fun _ => trivial

theorem emit_modify_spec {marks : List Mark} {change : Expansion → Expansion}
    (agree : All (Meets image pass) marks ↔ All (Allowed image pass) marks) :
    Runs image pass (do Action.emit marks; Action.modify change) (fun _ _ => True)
      state := by
  apply (emit_spec agree).bind
  intro _ _ _
  exact Ensures.modify trivial

structure Bounds (image : Image) (pass : Pass) : Prop where
  file : headerSize image ≤ image.fileSize
  destination : pass.calculateSizeOnly = false → headerSize image ≤ pass.destinationSize

theorem copyHeader_spec :
    Runs image pass (copyHeader image pass) (fun _ _ => Bounds image pass) state := by
  have taken : headerSize image ≤ image.fileSize ↔
      (headerSize image = 0 ∨ 0 + headerSize image ≤ image.fileSize) := by omega
  apply Ensures.ite
  · intro sizeOnly
    apply Ensures.emit
    · simp only [all_cons, all_nil, and_true, Meets, Allowed, true_and, taken]
    · intro met
      simp only [all_cons, all_nil, and_true, Meets] at met
      refine ⟨met, ?_⟩
      intro copying
      rw [sizeOnly] at copying
      cases copying
  · intro copying
    apply Ensures.ite
    · intro _
      exact Ensures.exit trivial
    · intro room
      apply Ensures.emit
      · simp only [all_cons, all_nil, and_true, Meets, Allowed, true_and, taken]
        exact ⟨fun met => ⟨met, Nat.le_of_not_lt room⟩, fun both => both.1⟩
      · intro met
        simp only [all_cons, all_nil, and_true, Meets] at met
        exact ⟨met, fun _ => Nat.le_of_not_lt room⟩

def RoundedHeader (image : Image) (pass : Pass) : Prop :=
  pass.calculateSizeOnly = false → image.isObject = true →
    headerSize image + 4095 < u32 ∧ headerSizeAligned image ≤ pass.destinationSize

theorem headerSizeAligned_of_object (object : image.isObject = true) :
    headerSizeAligned image = machoAlign u32 (headerSize image) := by
  rw [headerSizeAligned, if_pos object]

theorem clearHeaderRest_spec :
    Runs image pass (clearHeaderRest image pass) (fun _ _ => RoundedHeader image pass)
      state := by
  apply Ensures.ite
  · intro skipped
    apply Ensures.pure
    intro copying object
    simp [copying, object] at skipped
  · intro copies
    rw [not_or, Bool.not_eq_false] at copies
    have object := headerSizeAligned_of_object copies.2
    apply Ensures.ite
    · intro _
      exact Ensures.exit trivial
    · intro room
      have emitted : Runs image pass
          (Action.emit [.headerAligned, .difference (headerSizeAligned image) (headerSize image),
            .write (headerSize image)
              (wrapSub u32 (headerSizeAligned image) (headerSize image))])
          (fun _ _ => headerSize image + 4095 < u32) state := by
        apply Ensures.emit
        · simp only [all_cons, all_nil, and_true, Meets, Allowed, true_and]
          rw [object] at room ⊢
          rw [← le_machoAlign_iff]
          constructor
          · intro ordered
            rw [wrapSub_of_le ordered (machoAlign_lt _)]
            exact ⟨ordered, by omega⟩
          · intro both
            exact both.1
        · intro met
          simp only [all_cons, all_nil, and_true, Meets] at met
          exact met
      apply emitted.bind
      intro _ _ small
      apply Ensures.modify
      intro _ _
      exact ⟨small, Nat.le_of_not_lt room⟩

section Segments

variable {segment : Segment} {place : Placement} {delta : Nat} {firstAddress : Nat}

theorem all_copyMarks_iff (ordered : place.originalDelta ≤ place.currentDelta)
    (shiftFits : place.currentDelta < u32) (sized : place.copyFileSize ≤ place.copyVmSize)
    (vmFits : place.copyVmSize < limit image.arch)
    (inside : place.copyFileOffset + place.copyFileSize ≤ image.fileSize)
    (room : place.copyFileOffset + place.currentDelta + place.copyVmSize ≤ pass.destinationSize) :
    All (Allowed image pass) (copyMarks image place) ↔ (place.originalDelta < place.currentDelta →
        headerSize image ≤ place.copyFileOffset + place.originalDelta) ∧
      (0 < place.copyFileSize → headerSize image ≤ place.copyFileOffset + place.currentDelta) ∧
      (place.copyFileSize < place.copyVmSize →
        headerSize image ≤ place.copyFileOffset + place.currentDelta + place.copyFileSize) := by
  simp only [copyMarks, all_cons, all_nil, and_true, Allowed]
  rw [wrapSub_of_le ordered shiftFits, wrapSub_of_le sized vmFits]
  omega

theorem all_copyMarks_iff_ordered
    (behind : headerSize image ≤ place.copyFileOffset) (shiftFits : place.currentDelta < u32)
    (sized : place.copyFileSize ≤ place.copyVmSize) (vmFits : place.copyVmSize < limit image.arch)
    (inside : place.copyFileOffset + place.copyFileSize ≤ image.fileSize)
    (room : place.copyFileOffset + place.currentDelta + place.copyVmSize ≤ pass.destinationSize) :
    All (Allowed image pass) (copyMarks image place) ↔
      place.originalDelta ≤ place.currentDelta := by
  constructor
  · intro allowed
    exact (all_cons _ _ _ |>.mp allowed).1
  · intro ordered
    rw [all_copyMarks_iff ordered shiftFits sized vmFits inside room]
    omega

theorem headerDelta_lt (segment : Segment) : headerDelta image segment < u32 := by
  rw [headerDelta]
  split
  · exact Nat.mod_lt _ (by decide)
  · exact Nat.mod_lt _ (by decide)

section

variable (member : segment ∈ image.segments) (sized : segment.fileSize ≤ segment.size)
  (placed : Placed image delta segment place)
include member sized placed

theorem copySegment_agree (object : image.isObject = true →
      headerSize image + 4095 < u32)
    (room : place.currentSize ≤ pass.destinationSize) :
    Meets image pass (placementMark image segment place.originalDelta) ↔
      All (Allowed image pass) (copyMarks image place) := by
  have inside := image.segmentsInside segment member
  have sizeFits := (image.addressesFit segment member).2
  cases placed with
  | besideHeader beside =>
    rw [placementMark, if_pos beside]
    constructor
    · rintro ⟨ordered, gap, bytes, zeros⟩
      rw [all_copyMarks_iff ordered (headerDelta_lt segment) sized sizeFits inside room]
      exact ⟨gap, bytes, zeros⟩
    · intro allowed
      have ordered : delta ≤ headerDelta image segment := (all_cons _ _ _ |>.mp allowed).1
      rw [all_copyMarks_iff ordered (headerDelta_lt segment) sized sizeFits inside room] at allowed
      exact ⟨ordered, allowed.1, allowed.2.1, allowed.2.2⟩
  | overHeader notObject covers fits =>
    have apart : besideHeader image segment = false := by
      rw [MachoExpand.besideHeader, notObject, Bool.false_and]
    rw [placementMark, if_neg (ne_true_of_eq_false apart),
      all_copyMarks_iff_ordered (le_refl _) (machoAlign_lt delta)]
    · exact le_machoAlign_iff.symm
    · show segment.fileSize - headerSize image ≤ segment.size - headerSize image
      omega
    · show segment.size - headerSize image < limit image.arch
      omega
    · show headerSize image + (segment.fileSize - headerSize image) ≤ image.fileSize
      omega
    · exact room
  | behindHeader apart behind =>
    have first : headerSize image ≤ segment.fileOffset := by
      cases kind : image.isObject with
      | false => exact le_of_lt (behind kind)
      | true =>
        rw [MachoExpand.besideHeader, kind, Bool.true_and, decide_eq_false_iff_not,
          headerSizeAligned_of_object kind] at apart
        have rounded := le_machoAlign_iff.mpr (object kind)
        omega
    rw [placementMark, if_neg (ne_true_of_eq_false apart),
      all_copyMarks_iff_ordered first (machoAlign_lt delta) sized sizeFits inside room]
    exact le_machoAlign_iff.symm

theorem copySegment_spec (rounded : RoundedHeader image pass)
    (room : pass.calculateSizeOnly = false → place.currentSize ≤ pass.destinationSize) :
    Runs image pass (copySegment image pass segment place) (fun _ _ => True) state := by
  apply Ensures.ite
  · intro _
    exact Ensures.pure trivial
  · intro copying
    have copying := Bool.eq_false_of_not_eq_true copying
    have agree := copySegment_agree member sized placed
      (fun object => (rounded copying object).1) (room copying)
    apply emit_modify_spec
    rw [all_cons, all_cons, agree]
    have marked : Allowed image pass (placementMark image segment place.originalDelta) := by
      rw [placementMark]
      split
      · trivial
      · trivial
    have observed : All (Meets image pass) (copyMarks image place) := by
      simp only [copyMarks, all_cons, all_nil, and_true, Meets]
    exact ⟨fun both => ⟨marked, both.1⟩, fun both => ⟨both.2, observed⟩⟩

end

theorem checkRoom_spec {size : Nat} :
    Runs image pass (checkRoom pass size)
      (fun _ _ => pass.calculateSizeOnly = false → size ≤ pass.destinationSize) state := by
  apply Ensures.ite
  · intro _
    exact Ensures.exit trivial
  · intro room
    apply Ensures.pure
    intro copying
    exact Nat.le_of_not_lt fun short => room ⟨copying, short⟩

theorem notePlacement_spec
    (sized : segment.fileSize ≤ segment.size) (placed : Placed image delta segment place) :
    Runs image pass (notePlacement image segment) (fun _ _ => True) state := by
  apply Ensures.ite
  · intro beside
    rw [besideHeader, Bool.and_eq_true, decide_eq_true_eq] at beside
    apply emit_modify_spec
    simp only [all_cons, all_nil, and_true, Meets, Allowed, true_and]
    have fileOffset := beside.2
    rw [headerSizeAligned_of_object beside.1] at fileOffset ⊢
    rw [← le_machoAlign_iff]
    constructor
    · intro ordered
      rw [wrapSub_of_le ordered (machoAlign_lt _)]
      exact ⟨ordered, Nat.sub_le_sub_right fileOffset _⟩
    · intro both
      exact both.1
  · intro apart
    apply Ensures.ite
    · intro covers
      apply emit_spec
      simp only [all_cons, all_nil, and_true, Meets, Allowed, true_iff]
      cases placed with
      | besideHeader beside => exact absurd beside apart
      | overHeader notObject covers fits => exact ⟨fits, le_trans fits sized⟩
      | behindHeader apart behind => exact absurd covers.2 (Nat.not_le_of_lt (behind covers.1))
    · intro _
      exact Ensures.pure trivial

theorem checkAddress_spec {firstAddress segmentOffset : Nat} :
    Runs image pass (checkAddress image firstAddress segment segmentOffset) (fun _ _ => True)
      state := by
  apply Ensures.ite
  · intro _
    exact Ensures.exit trivial
  · intro _
    exact Ensures.pure trivial

theorem tableMarks_agree (copying : pass.calculateSizeOnly = false) :
    All (Meets image pass) (tableMarks image) ↔ All (Allowed image pass) (tableMarks image) := by
  rw [tableMarks]
  cases image.symtab with
  | none =>
    cases image.dySymtab with
    | none => exact all_nil_agree
    | some dySymtab => simp [all_cons, all_nil, Meets, Allowed, copying]
  | some symtab =>
    cases image.dySymtab with
    | none => simp [all_cons, all_nil, Meets, Allowed, copying]
    | some dySymtab => simp [all_cons, all_nil, Meets, Allowed, copying]

theorem shiftTables_spec :
    Runs image pass (shiftTables image pass segment delta) (fun _ _ => True) state := by
  apply Ensures.ite
  · intro _
    apply Ensures.get_bind
    have unchecked {again : Bool} : All (Meets image pass) [.linkeditFound again] ↔
        All (Allowed image pass) [.linkeditFound again] := by
      simp only [all_cons, all_nil, and_true, Meets, Allowed]
    apply (emit_spec unchecked).bind
    intro _ _ _
    apply Ensures.modify_bind
    apply Ensures.ite
    · intro _
      exact Ensures.pure trivial
    · intro copying
      exact emit_modify_spec (tableMarks_agree (Bool.eq_false_of_not_eq_true copying))
  · intro _
    exact Ensures.pure trivial

theorem expandSegment_spec
    (member : segment ∈ image.segments) (rounded : RoundedHeader image pass) :
    Runs image pass (expandSegment image pass firstAddress segment) (fun _ _ => True)
      state := by
  apply Ensures.get_bind
  split
  · exact Ensures.exit trivial
  · rename_i place found
    obtain ⟨sized, placed⟩ := placeSegment_placed image member found
    apply checkRoom_spec.bind
    intro _ _ room
    apply (notePlacement_spec sized placed).bind
    intro _ _ _
    apply (copySegment_spec member sized placed rounded room).bind
    intro _ _ _
    apply checkAddress_spec.bind
    intro _ _ _
    apply shiftTables_spec.bind
    intro _ _ _
    apply emit_modify_spec
    simp only [all_cons, all_nil, and_true, Meets, Allowed, sized]

theorem expandSegments_spec {segments : List Segment}
    (members : ∀ segment ∈ segments, segment ∈ image.segments)
    (rounded : RoundedHeader image pass) :
    Runs image pass (expandSegments image pass firstAddress segments) (fun _ _ => True)
      state := by
  induction segments generalizing state with
  | nil => exact Ensures.pure trivial
  | cons segment rest ih =>
    apply (expandSegment_spec (members segment List.mem_cons_self) rounded).bind
    intro _ _ _
    exact ih fun later member => members later (List.mem_cons_of_mem _ member)

end Segments

section Tables

variable {symtab : Symtab}

theorem alignTable_spec {alignment offset : Nat} :
    Runs image pass (alignTable alignment offset) (fun _ _ => True) state := by
  apply Ensures.get_bind
  apply emit_modify_spec
  simp only [all_cons, all_nil, and_true, Meets, Allowed, true_and, le_alignValue_iff]

theorem copyTableBytes_spec {offset delta size : Nat}
    (room : pass.calculateSizeOnly = false → offset + delta + size ≤ pass.destinationSize) :
    Runs image pass (copyTableBytes image pass offset delta size) (fun _ _ => True)
      state := by
  apply Ensures.ite
  · intro _
    exact Ensures.pure trivial
  · intro copying
    have room := room (Bool.eq_false_of_not_eq_true copying)
    apply emit_modify_spec
    simp only [all_cons, all_nil, and_true, Meets, Allowed, true_and]
    omega

theorem copyTable_spec {offset size : Nat} :
    Runs image pass (copyTable image pass offset size) (fun _ _ => True) state := by
  apply Ensures.get_bind
  split
  · exact Ensures.exit trivial
  · rename_i currentSize added
    obtain rfl := baseOverflowTriAdd_eq_some added
    apply checkRoom_spec.bind
    intro _ _ room
    apply Ensures.modify_bind
    apply (copyTableBytes_spec room).bind
    intro _ _ _
    exact Ensures.pure trivial

theorem copySectionRelocations_spec {part : Section} :
    Runs image pass (copySectionRelocations image pass part) (fun _ _ => True) state := by
  apply Ensures.ite
  · intro _
    apply alignTable_spec.bind
    intro _ _ _
    apply copyTable_spec.bind
    intro _ _ _
    exact Ensures.pure trivial
  · intro _
    exact Ensures.pure trivial

theorem copySectionsRelocations_spec {parts : List Section} :
    Runs image pass (copySectionsRelocations image pass parts) (fun _ _ => True) state := by
  induction parts generalizing state with
  | nil => exact Ensures.pure trivial
  | cons part rest ih =>
    apply copySectionRelocations_spec.bind
    intro _ _ _
    apply ih.bind
    intro _ _ _
    exact Ensures.pure trivial

theorem copySegmentsRelocations_spec {segments : List Segment} :
    Runs image pass (copySegmentsRelocations image pass segments) (fun _ _ => True)
      state := by
  induction segments generalizing state with
  | nil => exact Ensures.pure trivial
  | cons segment rest ih =>
    apply copySectionsRelocations_spec.bind
    intro _ _ _
    apply ih.bind
    intro _ _ _
    exact Ensures.pure trivial

theorem takeSymtab_spec (bounds : Bounds image pass)
    (present : image.symtab = some symtab) :
    Runs image pass (takeSymtab pass symtab) (fun _ _ => True) state := by
  have inside := image.symtabInside symtab present
  have file := bounds.file
  rw [headerSize] at file
  apply emit_spec
  cases copying : pass.calculateSizeOnly with
  | true => simp [all_cons, all_nil, Meets, Allowed, copying, symtabCommandSize]
  | false =>
    simp only [all_cons, all_nil, and_true, Meets, Allowed, copying, Bool.false_eq_true,
      if_false, true_and]
    omega

theorem copySymbols_spec :
    Runs image pass (copySymbols image pass symtab) (fun _ _ => True) state := by
  apply Ensures.ite
  · intro _
    apply alignTable_spec.bind
    intro _ _ _
    apply copyTable_spec.bind
    intro _ _ _
    apply Ensures.ite
    · intro _
      exact Ensures.pure trivial
    · intro _
      exact Ensures.modify trivial
  · intro _
    exact Ensures.pure trivial

theorem copyStrings_spec :
    Runs image pass (copyStrings image pass symtab) (fun _ _ => True) state := by
  apply Ensures.ite
  · intro _
    apply copyTable_spec.bind
    intro _ _ _
    apply Ensures.ite
    · intro _
      exact Ensures.pure trivial
    · intro _
      exact Ensures.modify trivial
  · intro _
    exact Ensures.pure trivial

theorem copyTables_spec (bounds : Bounds image pass) :
    Runs image pass (copyTables image pass) (fun _ _ => True) state := by
  apply Ensures.get_bind
  apply Ensures.ite
  · intro _
    exact Ensures.pure trivial
  · intro _
    apply copySegmentsRelocations_spec.bind
    intro _ _ _
    apply Ensures.modify_bind
    rw [copySymtab]
    split
    · exact Ensures.pure trivial
    · rename_i symtab present
      apply (takeSymtab_spec bounds present).bind
      intro _ _ _
      apply copySymbols_spec.bind
      intro _ _ _
      exact copyStrings_spec

end Tables

section Rest

theorem copyRaw_spec (bounds : Bounds image pass) :
    Runs image pass (copyRaw image pass) (fun _ _ => True) state := by
  have file := bounds.file
  have fits := image.fileSizeFits
  apply Ensures.get_bind
  apply Ensures.ite
  · intro _
    apply checkRoom_spec.bind
    intro _ _ room
    have copied {state : Expansion} : Runs image pass (copyRaw.copyRawBytes image pass)
        (fun _ _ => True) state := by
      apply Ensures.ite
      · intro _
        exact Ensures.pure trivial
      · intro copying
        have room := room (Bool.eq_false_of_not_eq_true copying)
        apply emit_modify_spec
        simp only [all_cons, all_nil, and_true, Meets, Allowed, true_iff]
        rw [wrapSub_of_le file fits]
        omega
    apply copied.bind
    intro _ _ _
    exact Ensures.modify trivial
  · intro _
    exact Ensures.pure trivial

/-- Where the loop over the load commands stands, with so many bytes of commands from
`LoadCommand` on. What is counted as left is too much by what was taken off the size. -/
structure Stripping (image : Image) (strip : Strip) (ahead : Nat) : Prop where
  counted : ahead ≤ strip.commandsSize
  takenOff : strip.commandsSize ≤ image.commandsSize
  left : strip.sizeOfLeftCommands + strip.commandsSize = ahead + image.commandsSize
  place : strip.loadCommand + ahead + strip.movedUp = headerSize image

structure Stripped (image : Image) (strip : Strip) : Prop where
  takenOff : strip.commandsSize ≤ image.commandsSize
  place : strip.loadCommand + strip.movedUp = headerSize image

theorem stripBytes_spec {strip : Strip} {size : Nat} {source : Option Nat}
    (agree : headerSize image + wrapSub u32 image.commandsSize strip.commandsSize ≤
        pass.destinationSize + strip.movedUp ↔
      (size = 0 ∨ strip.loadCommand + size ≤ pass.destinationSize) ∧
        ∀ place ∈ source, size = 0 ∨ place + size ≤ pass.destinationSize) :
    Runs image pass (stripBytes image strip size source) (fun _ _ => True) state := by
  apply emit_modify_spec
  cases source with
  | none => simpa [all_cons, all_nil, Meets, Allowed] using agree
  | some place => simpa [all_cons, all_nil, Meets, Allowed] using agree

section Stripping
variable {strip : Strip} {ahead : Nat} {command : Command}

theorem Stripping.left_lt (stripping : Stripping image strip ahead) :
    strip.sizeOfLeftCommands < u32 ∧ strip.commandsSize < u32 ∧ image.commandsSize < u32 := by
  have fits := image.headerFits
  obtain ⟨counted, takenOff, left, _⟩ := stripping
  omega

theorem Stripping.left_sub (stripping : Stripping image strip (command.size + ahead)) :
    wrapSub u32 strip.sizeOfLeftCommands command.size =
      strip.sizeOfLeftCommands - command.size := by
  have fits := stripping.left_lt.1
  obtain ⟨counted, takenOff, left, _⟩ := stripping
  exact wrapSub_of_le (by omega) fits

theorem Stripping.taken (stripping : Stripping image strip ahead) :
    wrapSub u32 image.commandsSize strip.commandsSize = image.commandsSize - strip.commandsSize :=
  wrapSub_of_le stripping.takenOff stripping.left_lt.2.2

theorem Stripping.keep (stripping : Stripping image strip (command.size + ahead)) :
    Stripping image
      { strip with
        sizeOfLeftCommands := wrapSub u32 strip.sizeOfLeftCommands command.size
        loadCommand := strip.loadCommand + command.size } ahead := by
  rw [stripping.left_sub]
  obtain ⟨counted, takenOff, left, place⟩ := stripping
  constructor
  · show ahead ≤ strip.commandsSize
    omega
  · exact takenOff
  · show strip.sizeOfLeftCommands - command.size + strip.commandsSize = ahead + image.commandsSize
    omega
  · show strip.loadCommand + command.size + ahead + strip.movedUp = headerSize image
    omega

theorem Stripping.replace {moved : Command}
    (stripping : Stripping image strip (command.size + (moved.size + ahead))) :
    Stripping image
      { numCommands := strip.numCommands - 1
        commandsSize := wrapSub u32 strip.commandsSize moved.size
        sizeOfLeftCommands := wrapSub u32 strip.sizeOfLeftCommands command.size
        loadCommand := strip.loadCommand + moved.size
        movedUp := strip.movedUp + command.size } ahead := by
  have fits := stripping.left_lt.2.1
  rw [stripping.left_sub]
  obtain ⟨counted, takenOff, left, place⟩ := stripping
  rw [wrapSub_of_le (by omega) fits]
  constructor
  · show ahead ≤ strip.commandsSize - moved.size
    omega
  · show strip.commandsSize - moved.size ≤ image.commandsSize
    omega
  · show strip.sizeOfLeftCommands - command.size + (strip.commandsSize - moved.size) =
      ahead + image.commandsSize
    omega
  · show strip.loadCommand + moved.size + ahead + (strip.movedUp + command.size) = headerSize image
    omega

theorem Stripping.last (stripping : Stripping image strip command.size) :
    Stripped image
      { strip with
        numCommands := strip.numCommands - 1
        commandsSize := wrapSub u32 strip.commandsSize command.size
        sizeOfLeftCommands := wrapSub u32 strip.sizeOfLeftCommands command.size
        loadCommand := strip.loadCommand + command.size } := by
  have fits := stripping.left_lt.2.1
  obtain ⟨counted, takenOff, left, place⟩ := stripping
  rw [wrapSub_of_le counted fits]
  constructor
  · show strip.commandsSize - command.size ≤ image.commandsSize
    omega
  · exact place

theorem stripping_start (image : Image) :
    Stripping image
      { numCommands := image.commands.length
        commandsSize := image.commandsSize
        sizeOfLeftCommands := image.commandsSize
        loadCommand := image.arch.headerSize
        movedUp := 0 } (image.commands.map Command.size).sum := by
  constructor
  · exact le_of_eq image.commandsTiled
  · exact le_refl _
  · rw [image.commandsTiled]
  · rw [image.commandsTiled]
    rfl

theorem stripCommands_spec {strip : Strip} {commands : List Command}
    (room : headerSize image ≤ pass.destinationSize)
    (stripping : Stripping image strip (commands.map Command.size).sum) :
    Runs image pass (stripCommands image strip commands) (fun strip _ => Stripped image strip)
      state := by
  induction strip, commands using stripCommands.induct generalizing state with
  | case1 strip =>
    rw [stripCommands]
    exact Ensures.pure ⟨stripping.takenOff, stripping.place⟩
  | case2 strip command listed =>
    rw [stripCommands, if_pos listed]
    exact Ensures.pure stripping.last
  | case3 strip command left listed moved others =>
    rename_i ih
    rw [stripCommands, if_pos listed]
    have moves := stripping.left_sub
    have taken := stripping.taken
    have inside := stripping
    obtain ⟨counted, takenOff, counts, place⟩ := inside
    -- The commands that are moved end where the ones ahead end, and what was taken off
    -- their size behind that.
    have moved : Runs image pass
        (stripBytes image strip (wrapSub u32 strip.sizeOfLeftCommands command.size)
          (some (strip.loadCommand + command.size))) (fun _ _ => True) state := by
      apply stripBytes_spec
      simp only [List.map_cons, List.sum_cons] at counted takenOff counts place
      rw [moves, taken]
      simp only [Option.mem_def, Option.some.injEq, forall_eq']
      omega
    apply moved.bind
    intro _ _ _
    exact ih stripping.replace
  | case4 strip command rest left kept =>
    rename_i ih
    rw [stripCommands_keep image kept]
    exact ih stripping.keep

end Stripping

theorem stripIfWanted_spec (bounds : Bounds image pass) :
    Runs image pass (stripIfWanted image pass) (fun _ _ => True) state := by
  apply Ensures.ite
  · intro wanted
    have room := bounds.destination wanted.1
    apply (stripCommands_spec room (stripping_start image)).bind
    intro strip _ stripped
    obtain ⟨takenOff, place⟩ := stripped
    have fits := image.headerFits
    apply stripBytes_spec
    rw [wrapSub_of_le takenOff (by omega)]
    simp only [Option.mem_def, reduceCtorEq, false_implies, implies_true, and_true]
    omega
  · intro _
    exact Ensures.pure trivial

end Rest

theorem internalMachoExpandImage_spec :
    Runs image pass (internalMachoExpandImage image pass) (fun _ _ => True) state := by
  apply copyHeader_spec.bind
  intro _ _ bounds
  apply clearHeaderRest_spec.bind
  intro _ _ rounded
  apply (expandSegments_spec (fun _ member => member) rounded).bind
  intro _ _ _
  apply (copyTables_spec bounds).bind
  intro _ _ _
  apply (copyRaw_spec bounds).bind
  intro _ _ _
  apply (stripIfWanted_spec bounds).bind
  intro _ _ _
  apply Ensures.get_bind
  exact Ensures.pure trivial

/-- On every file and in either pass, the reads, the writes and the differences keep the
bounds exactly when every step without a check finds what it relies on. -/
theorem internalMachoExpandImage_bounds_iff (image : Image) (pass : Pass) (destination : Memory) :
    (∀ mark ∈ (internalMachoExpandImage image pass).marks (initial image destination),
      Allowed image pass mark) ↔
    ∀ mark ∈ (internalMachoExpandImage image pass).marks (initial image destination),
      Meets image pass mark :=
  internalMachoExpandImage_spec.1.symm

/-- What is copied or moved of an accepted file, in a pass whose steps find what they rely on. -/
theorem acceptedImage_allowed {memory : Memory}
    {uintn fileData fileSize headerOffset innerSize : Nat} {is32Bit : Bool} {context : MachoContext}
    (object : fileData + fileSize < uintn) (inside : headerOffset ≤ fileSize)
    (small : fileSize < u32)
    (accepted : machoInitializeContext memory uintn fileData fileSize headerOffset innerSize is32Bit =
      some context) (sliceFits : context.fileSize < u32) (pass : Pass) (destination : Memory) :
    let image := acceptedImage object inside small accepted sliceFits
    (∀ mark ∈ (internalMachoExpandImage image pass).marks (initial image destination),
      Meets image pass mark) → ∀ offset size, .read offset size ∈
        (internalMachoExpandImage image pass).marks (initial image destination) →
      size = 0 ∨ offset + size ≤ context.fileSize := by
  intro image meets offset size read
  exact internalMachoExpandImage_spec.1.mp meets _ read

/-- A 64-bit kext of 56 bytes: a header with a SYMTAB command, whose one symbol would
lie at offset 4096. -/
def symtabOnly : Image where
  arch := .mach64
  fileData := fun _ => 0
  fileSize := 56
  isObject := false
  commandsSize := 24
  commands := [⟨symtabCommandType, symtabCommandSize⟩]
  segments := []
  symtab := some
    { place := 32
      commandSize := symtabCommandSize
      symbolsOffset := 4096
      numSymbols := 1
      stringsOffset := 0
      stringsSize := 0 }
  dySymtab := none
  fileSizeFits := by decide
  headerFits := by decide
  commandsTiled := rfl
  segmentsInside := by
    intro segment member
    cases member
  addressesFit := by
    intro segment member
    cases member
  symtabInside := by
    rintro table ⟨⟩
    decide
  dySymtabInside := by
    intro table member
    cases member
  contentsFit := by
    intro table member
    cases member

theorem symtabOnly_read_behind_file :
    let pass : Pass := ⟨false, 8192, false, by decide⟩
    Mark.read 4096 16 ∈
        (internalMachoExpandImage symtabOnly pass).marks (initial symtabOnly fun _ => 0) ∧
      ¬ Allowed symtabOnly pass (.read 4096 16) := by
  constructor
  · decide
  · show ¬ (16 = 0 ∨ 4096 + 16 ≤ 56)
    decide

end OpenCore.MachoExpandSafety
