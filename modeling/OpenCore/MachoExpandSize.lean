import OpenCore.MachoExpand

/-!
The pass that only calculates the size against a pass that copies: where the copy ends,
the other ends too, and with the same size. The two runs stay level in the shift, the
size and the __LINKEDIT they found, and the segment commands they go by agree in the
relocations of their sections.
-/

namespace OpenCore.MachoExpandSize

open AddressSpace MachoImage TracedAction MachoExpand

def relocations (segment : Segment) : List (Nat × Nat) :=
  segment.sections.map fun part => (part.relocationsOffset, part.numRelocations)

structure Level (left right : Expansion) : Prop where
  currentDelta : left.currentDelta = right.currentDelta
  currentSize : left.currentSize = right.currentSize
  foundLinkedit : left.foundLinkedit = right.foundLinkedit

structure Even (left right : Expansion) : Prop extends Level left right where
  relocations : left.segments.map relocations = right.segments.map relocations

variable {image : Image} {pass sizePass : Pass} {left right : Expansion}

section Segments

variable {segment : Segment} {firstAddress : Nat}

theorem checkRoom_follows {size : Nat} (sizeOnly : sizePass.calculateSizeOnly = true)
    {related : Expansion → Expansion → Prop} (holds : related left right) :
    Follows (checkRoom pass size) (checkRoom sizePass size)
      (fun _ _ final last => related final last) left right := by
  have passes : checkRoom sizePass size = pure () := by
    rw [checkRoom, sizeOnly]
    exact if_neg fun both => Bool.noConfusion both.1
  rw [passes, checkRoom]
  split
  · exact Follows.exit
  · exact Follows.ends rfl rfl holds

variable (copying : pass.calculateSizeOnly = false) (sizeOnly : sizePass.calculateSizeOnly = true)
  (even : Even left right)
include copying sizeOnly even

theorem copySegment_follows {place : Placement} :
    Follows (copySegment image pass segment place) (copySegment image sizePass segment place)
      (fun _ _ final last => Even final last) left right := by
  rw [copySegment, copySegment, copying, sizeOnly]
  exact Follows.ends rfl rfl
    ⟨⟨even.currentDelta, even.currentSize, even.foundLinkedit⟩, even.relocations⟩

omit copying sizeOnly even in
theorem notePlacement_follows (even : Even left right) :
    Follows (notePlacement image segment) (notePlacement image segment)
      (fun _ _ final last => Even final last) left right := by
  rw [notePlacement]
  split
  · exact Follows.ends rfl rfl
      ⟨⟨even.currentDelta, even.currentSize, even.foundLinkedit⟩, even.relocations⟩
  · split
    · exact Follows.ends rfl rfl even
    · exact Follows.ends rfl rfl even

omit copying sizeOnly even in
theorem checkAddress_follows {firstAddress segmentOffset : Nat}
    (even : Even left right) :
    Follows (checkAddress image firstAddress segment segmentOffset)
      (checkAddress image firstAddress segment segmentOffset)
      (fun _ _ final last => Even final last) left right := by
  rw [checkAddress]
  split
  · exact Follows.exit
  · exact Follows.ends rfl rfl even

theorem shiftTables_follows {delta : Nat} :
    Follows (shiftTables image pass segment delta) (shiftTables image sizePass segment delta)
      (fun _ _ final last => Even final last) left right := by
  rw [shiftTables, shiftTables, copying, sizeOnly]
  split
  · exact Follows.ends rfl rfl ⟨⟨even.currentDelta, even.currentSize, rfl⟩, even.relocations⟩
  · exact Follows.ends rfl rfl even

omit copying sizeOnly even in
theorem relocations_placeSections {delta offset : Nat} {parts : List Section} :
    (placeSections image delta offset parts).map
        (fun part => (part.relocationsOffset, part.numRelocations)) =
      parts.map fun part => (part.relocationsOffset, part.numRelocations) := by
  induction parts generalizing delta offset with
  | nil => rfl
  | cons part rest ih =>
    rw [placeSections]
    split
    · rw [List.map_cons, List.map_cons, ih]
    · rw [List.map_cons, List.map_cons, ih]

omit copying sizeOnly even in
theorem relocations_movedSegment {delta segmentOffset : Nat} :
    relocations (movedSegment image pass segment delta segmentOffset) = relocations segment := by
  rw [movedSegment]
  split
  · rfl
  · exact relocations_placeSections

theorem expandSegment_follows :
    Follows (expandSegment image pass firstAddress segment)
      (expandSegment image sizePass firstAddress segment)
      (fun _ _ final last => Even final last) left right := by
  apply Follows.get_bind
  rw [even.currentDelta]
  split
  · exact Follows.exit
  · rename_i place found
    apply (checkRoom_follows sizeOnly even).bind
    intro _ _ left right even
    apply (notePlacement_follows even).bind
    intro _ _ left right even
    apply (copySegment_follows copying sizeOnly even).bind
    intro _ _ left right even
    apply (checkAddress_follows even).bind
    intro _ _ left right even
    apply (shiftTables_follows copying sizeOnly even).bind
    intro _ _ left right even
    apply Follows.ends rfl rfl
    refine ⟨⟨rfl, rfl, even.foundLinkedit⟩, ?_⟩
    simp only [List.map_append, List.map_cons, List.map_nil, relocations_movedSegment,
      even.relocations]

theorem expandSegments_follows {segments : List Segment} :
    Follows (expandSegments image pass firstAddress segments)
      (expandSegments image sizePass firstAddress segments)
      (fun _ _ final last => Even final last) left right := by
  induction segments generalizing left right with
  | nil => exact Follows.ends rfl rfl even
  | cons segment rest ih =>
    apply (expandSegment_follows copying sizeOnly even).bind
    intro _ _ left right even
    exact ih even

end Segments

section Tables

theorem alignTable_follows {alignment offset : Nat} (level : Level left right) :
    Follows (alignTable alignment offset) (alignTable alignment offset)
      (fun _ _ final last => Level final last) left right := by
  apply Follows.get_bind
  rw [level.currentDelta]
  exact Follows.ends rfl rfl ⟨rfl, level.currentSize, level.foundLinkedit⟩

variable (copying : pass.calculateSizeOnly = false) (sizeOnly : sizePass.calculateSizeOnly = true)
  (level : Level left right)
include copying sizeOnly level

theorem copyTable_follows {offset size : Nat} :
    Follows (copyTable image pass offset size) (copyTable image sizePass offset size)
      (fun _ _ final last => Level final last) left right := by
  apply Follows.get_bind
  rw [level.currentDelta]
  split
  · exact Follows.exit
  · apply (checkRoom_follows sizeOnly level).bind
    intro _ _ left right level
    rw [copyTableBytes, copyTableBytes, copying, sizeOnly]
    exact Follows.ends rfl rfl ⟨level.currentDelta, rfl, level.foundLinkedit⟩

omit copying sizeOnly level in
theorem copySectionRelocations_follows {part other : Section}
    (same : (part.relocationsOffset, part.numRelocations) =
      (other.relocationsOffset, other.numRelocations))
    (copying : pass.calculateSizeOnly = false) (sizeOnly : sizePass.calculateSizeOnly = true)
    (level : Level left right) :
    Follows (copySectionRelocations image pass part) (copySectionRelocations image sizePass other)
      (fun _ _ final last => Level final last) left right := by
  obtain ⟨sameOffset, sameNumber⟩ := Prod.mk.inj same
  rw [copySectionRelocations, copySectionRelocations, sameOffset, sameNumber]
  split
  · apply (alignTable_follows level).bind
    intro _ _ left right level
    apply (copyTable_follows copying sizeOnly level).bind
    intro _ _ left right level
    exact Follows.ends rfl rfl level
  · exact Follows.ends rfl rfl level

omit copying sizeOnly level in
theorem copySectionsRelocations_follows {parts others : List Section}
    (same : parts.map (fun part => (part.relocationsOffset, part.numRelocations)) =
      others.map fun part => (part.relocationsOffset, part.numRelocations))
    (copying : pass.calculateSizeOnly = false) (sizeOnly : sizePass.calculateSizeOnly = true)
    (level : Level left right) :
    Follows (copySectionsRelocations image pass parts)
      (copySectionsRelocations image sizePass others)
      (fun _ _ final last => Level final last) left right := by
  induction parts generalizing others left right with
  | nil =>
    cases others with
    | nil => exact Follows.ends rfl rfl level
    | cons other rest => cases same
  | cons part rest ih =>
    cases others with
    | nil => cases same
    | cons other rest =>
      obtain ⟨first, later⟩ := List.cons.inj same
      apply (copySectionRelocations_follows first copying sizeOnly level).bind
      intro _ _ left right level
      apply (ih later level).bind
      intro _ _ left right level
      exact Follows.ends rfl rfl level

omit copying sizeOnly level in
theorem copySegmentsRelocations_follows {segments others : List Segment}
    (same : segments.map relocations = others.map relocations)
    (copying : pass.calculateSizeOnly = false) (sizeOnly : sizePass.calculateSizeOnly = true)
    (level : Level left right) :
    Follows (copySegmentsRelocations image pass segments)
      (copySegmentsRelocations image sizePass others)
      (fun _ _ final last => Level final last) left right := by
  induction segments generalizing others left right with
  | nil =>
    cases others with
    | nil => exact Follows.ends rfl rfl level
    | cons other rest => cases same
  | cons segment rest ih =>
    cases others with
    | nil => cases same
    | cons other rest =>
      obtain ⟨first, later⟩ := List.cons.inj same
      apply (copySectionsRelocations_follows first copying sizeOnly level).bind
      intro _ _ left right level
      apply (ih later level).bind
      intro _ _ left right level
      exact Follows.ends rfl rfl level

theorem copySymbols_follows {symtab : Symtab} :
    Follows (copySymbols image pass symtab) (copySymbols image sizePass symtab)
      (fun _ _ final last => Level final last) left right := by
  rw [copySymbols, copySymbols]
  split
  · apply (alignTable_follows level).bind
    intro _ _ left right level
    apply (copyTable_follows copying sizeOnly level).bind
    intro _ _ left right level
    rw [copying]
    exact Follows.ends rfl rfl ⟨level.currentDelta, level.currentSize, level.foundLinkedit⟩
  · exact Follows.ends rfl rfl level

theorem copyStrings_follows {symtab : Symtab} :
    Follows (copyStrings image pass symtab) (copyStrings image sizePass symtab)
      (fun _ _ final last => Level final last) left right := by
  rw [copyStrings, copyStrings]
  split
  · apply (copyTable_follows copying sizeOnly level).bind
    intro _ _ left right level
    rw [copying]
    exact Follows.ends rfl rfl ⟨level.currentDelta, level.currentSize, level.foundLinkedit⟩
  · exact Follows.ends rfl rfl level

omit level in
theorem copyTables_follows (even : Even left right) :
    Follows (copyTables image pass) (copyTables image sizePass)
      (fun _ _ final last => Level final last) left right := by
  apply Follows.get_bind
  rw [even.foundLinkedit]
  split
  · exact Follows.ends rfl rfl even.toLevel
  · apply (copySegmentsRelocations_follows even.relocations copying sizeOnly even.toLevel).bind
    intro moved others left right level
    have stored : Follows
        (Action.modify fun state => { state with segments := moved } : Expander Unit)
        (Action.modify fun state => { state with segments := others })
        (fun _ _ final last => Level final last) left right :=
      Follows.ends rfl rfl ⟨level.currentDelta, level.currentSize, level.foundLinkedit⟩
    apply stored.bind
    intro _ _ left right level
    rw [copySymtab, copySymtab]
    cases image.symtab with
    | none => exact Follows.ends rfl rfl level
    | some symtab =>
      have taken : Follows (takeSymtab pass symtab) (takeSymtab sizePass symtab)
          (fun _ _ final last => Level final last) left right := Follows.ends rfl rfl level
      apply taken.bind
      intro _ _ left right level
      apply (copySymbols_follows copying sizeOnly level).bind
      intro _ _ left right level
      exact copyStrings_follows copying sizeOnly level

end Tables

section Rest

theorem copyRaw_follows (copying : pass.calculateSizeOnly = false)
    (sizeOnly : sizePass.calculateSizeOnly = true) (level : Level left right) :
    Follows (copyRaw image pass) (copyRaw image sizePass)
      (fun _ _ final last => Level final last) left right := by
  apply Follows.get_bind
  rw [level.currentSize]
  split
  · apply (checkRoom_follows sizeOnly level).bind
    intro _ _ left right level
    rw [copyRaw.copyRawBytes, copyRaw.copyRawBytes, copying, sizeOnly]
    exact Follows.ends rfl rfl ⟨level.currentDelta, rfl, level.foundLinkedit⟩
  · exact Follows.ends rfl rfl level

theorem stripCommands_ends (image : Image) (strip : Strip) (commands : List Command)
    (state : Expansion) :
    ∃ stripped destination, (stripCommands image strip commands state).1 =
      (.ok stripped, { state with destination := destination }) := by
  induction strip, commands using stripCommands.induct generalizing state with
  | case1 strip => exact ⟨strip, state.destination, rfl⟩
  | case2 strip command listed =>
    rw [stripCommands, if_pos listed]
    exact ⟨_, state.destination, rfl⟩
  | case3 strip command left listed moved others =>
    rename_i ih
    rw [stripCommands, if_pos listed]
    exact ih _
  | case4 strip command rest left kept =>
    rename_i ih
    rw [stripCommands_keep image kept]
    exact ih state

theorem stripIfWanted_follows (sizeOnly : sizePass.calculateSizeOnly = true)
    (level : Level left right) :
    Follows (stripIfWanted image pass) (stripIfWanted image sizePass)
      (fun _ _ final last => Level final last) left right := by
  have passes : stripIfWanted image sizePass = pure () := by
    rw [stripIfWanted, sizeOnly]
    exact if_neg fun both => Bool.noConfusion both.1
  rw [passes, stripIfWanted]
  split
  · obtain ⟨stripped, destination, ended⟩ := stripCommands_ends image
      { numCommands := image.commands.length
        commandsSize := image.commandsSize
        sizeOfLeftCommands := image.commandsSize
        loadCommand := image.arch.headerSize
        movedUp := 0 } image.commands left
    apply Follows.ends (bind_ok ended) rfl
    exact ⟨level.currentDelta, level.currentSize, level.foundLinkedit⟩
  · exact Follows.ends rfl rfl level

end Rest

theorem copyHeader_follows (copying : pass.calculateSizeOnly = false)
    (sizeOnly : sizePass.calculateSizeOnly = true) (even : Even left right) :
    Follows (copyHeader image pass) (copyHeader image sizePass)
      (fun _ _ final last => Even final last) left right := by
  rw [copyHeader, copyHeader, copying, sizeOnly, if_neg Bool.false_ne_true, if_pos rfl]
  split
  · exact Follows.exit
  · exact Follows.ends rfl rfl even

theorem clearHeaderRest_follows (sizeOnly : sizePass.calculateSizeOnly = true)
    (even : Even left right) :
    Follows (clearHeaderRest image pass) (clearHeaderRest image sizePass)
      (fun _ _ final last => Even final last) left right := by
  have passes : clearHeaderRest image sizePass = pure () := by
    rw [clearHeaderRest]
    exact if_pos (Or.inl sizeOnly)
  rw [passes, clearHeaderRest]
  split
  · exact Follows.ends rfl rfl even
  · split
    · exact Follows.exit
    · exact Follows.ends rfl rfl
        ⟨⟨even.currentDelta, even.currentSize, even.foundLinkedit⟩, even.relocations⟩

theorem internalMachoExpandImage_follows {destination : Memory}
    (copying : pass.calculateSizeOnly = false) (sizeOnly : sizePass.calculateSizeOnly = true) :
    Follows (internalMachoExpandImage image pass) (internalMachoExpandImage image sizePass)
      (fun size other _ _ => size = other) (initial image destination)
      (initial image destination) := by
  apply (copyHeader_follows copying sizeOnly ⟨⟨rfl, rfl, rfl⟩, rfl⟩).bind
  intro _ _ left right even
  apply (clearHeaderRest_follows sizeOnly even).bind
  intro _ _ left right even
  apply (expandSegments_follows copying sizeOnly even).bind
  intro _ _ left right even
  apply (copyTables_follows copying sizeOnly even).bind
  intro _ _ left right level
  apply (copyRaw_follows copying sizeOnly level).bind
  intro _ _ left right level
  apply (stripIfWanted_follows sizeOnly level).bind
  intro _ _ left right level
  apply Follows.get_bind
  apply Follows.ends rfl rfl
  rw [level.currentSize]

end OpenCore.MachoExpandSize
