import OpenCore.MachoHeader
import Mathlib.Data.List.TakeWhile

/-!
A Mach-O file as the expansion of images sees it: the segments that
`MachoGetNextSegment` returns, the first SYMTAB and DYSYMTAB command, the sizes and
types of all load commands, and the bytes of the file from its header on. Offsets
count from the header.
-/

namespace OpenCore.MachoImage

open Base AddressSpace RecordWalk MachoHeader List

structure Section where
  size : Nat
  offset : Nat
  relocationsOffset : Nat
  numRelocations : Nat
  deriving DecidableEq

structure Segment where
  isLinkedit : Bool
  virtualAddress : Nat
  size : Nat
  fileOffset : Nat
  fileSize : Nat
  sections : List Section
  deriving DecidableEq

structure Symtab where
  place : Nat
  commandSize : Nat
  symbolsOffset : Nat
  numSymbols : Nat
  stringsOffset : Nat
  stringsSize : Nat
  deriving DecidableEq

structure DySymtab where
  place : Nat
  commandSize : Nat
  localSymbolsIndex : Nat
  numLocalSymbols : Nat
  externalSymbolsIndex : Nat
  numExternalSymbols : Nat
  undefinedSymbolsIndex : Nat
  numUndefinedSymbols : Nat
  tableOfContentsFileOffset : Nat
  tableOfContentsNumEntries : Nat
  moduleTableFileOffset : Nat
  moduleTableNumEntries : Nat
  referencedSymbolTableFileOffset : Nat
  referencedSymbolTableNumEntries : Nat
  indirectSymbolsOffset : Nat
  numIndirectSymbols : Nat
  externalRelocationsOffset : Nat
  numExternalRelocations : Nat
  localRelocationsOffset : Nat
  numOfLocalRelocations : Nat
  deriving DecidableEq

structure Command where
  type : Nat
  size : Nat
  deriving DecidableEq

def symtabCommandSize : Nat := 24

def dySymtabCommandSize : Nat := 80

def limit (arch : MachX) : Nat := 256 ^ arch.uintSize

theorem limit_ge (arch : MachX) : u32 ≤ limit arch := by
  cases arch with
  | mach32 => exact le_refl _
  | mach64 => decide

structure Image where
  arch : MachX
  fileData : Memory
  fileSize : Nat
  isObject : Bool
  commandsSize : Nat
  commands : List Command
  segments : List Segment
  symtab : Option Symtab
  dySymtab : Option DySymtab
  fileSizeFits : fileSize < u32
  headerFits : arch.headerSize + commandsSize < u32
  commandsTiled : (commands.map Command.size).sum = commandsSize
  segmentsInside : ∀ segment ∈ segments, segment.fileOffset + segment.fileSize ≤ fileSize
  addressesFit : ∀ segment ∈ segments,
    segment.virtualAddress < limit arch ∧ segment.size < limit arch
  symtabInside : ∀ table ∈ symtab, table.place + table.commandSize ≤ arch.headerSize + commandsSize
  dySymtabInside : ∀ table ∈ dySymtab,
    table.place + table.commandSize ≤ arch.headerSize + commandsSize
  contentsFit : ∀ table ∈ dySymtab,
    table.tableOfContentsFileOffset < u32 ∧ table.tableOfContentsNumEntries < u32

section Fields
variable (memory : Memory) (uintn : Nat) (arch : MachX)

def segmentCommandType : MachX → Nat
  | .mach32 => 1
  | .mach64 => 25

def symtabCommandType : Nat := 2

def dySymtabCommandType : Nat := 11

def segmentCommandSize : MachX → Nat
  | .mach32 => 56
  | .mach64 => 72

def sectionSize : MachX → Nat
  | .mach32 => 68
  | .mach64 => 80

/-- The fields behind the names: those of the width of the form, then 32-bit ones. -/
def wideField (base index : Nat) : Nat := load memory arch.uintSize (base + index * arch.uintSize)

def narrowField (base wide index : Nat) : Nat :=
  load memory 4 (base + wide * arch.uintSize + index * 4)

def readSection (place : Nat) : Section where
  size := wideField memory arch (place + 32) 1
  offset := narrowField memory arch (place + 32) 2 0
  relocationsOffset := narrowField memory arch (place + 32) 2 2
  numRelocations := narrowField memory arch (place + 32) 2 3

def numSections (command : Nat) : Nat := narrowField memory arch (command + 24) 4 2

def namesLinkedit (command : Nat) : Bool :=
  (List.range 11).map (fun index => memory (command + 8 + index)) ==
    [0x5F, 0x5F, 0x4C, 0x49, 0x4E, 0x4B, 0x45, 0x44, 0x49, 0x54, 0]

def readSegment (command : Nat) : Segment where
  isLinkedit := namesLinkedit memory command
  virtualAddress := wideField memory arch (command + 24) 0
  size := wideField memory arch (command + 24) 1
  fileOffset := wideField memory arch (command + 24) 2
  fileSize := wideField memory arch (command + 24) 3
  sections := (List.range (numSections memory arch command)).map fun index =>
    readSection memory arch (command + segmentCommandSize arch + index * sectionSize arch)

def readSymtab (header command : Nat) : Symtab where
  place := command - header
  commandSize := commandSize memory command
  symbolsOffset := load memory 4 (command + 8)
  numSymbols := load memory 4 (command + 12)
  stringsOffset := load memory 4 (command + 16)
  stringsSize := load memory 4 (command + 20)

def readDySymtab (header command : Nat) : DySymtab where
  place := command - header
  commandSize := commandSize memory command
  localSymbolsIndex := load memory 4 (command + 8)
  numLocalSymbols := load memory 4 (command + 12)
  externalSymbolsIndex := load memory 4 (command + 16)
  numExternalSymbols := load memory 4 (command + 20)
  undefinedSymbolsIndex := load memory 4 (command + 24)
  numUndefinedSymbols := load memory 4 (command + 28)
  tableOfContentsFileOffset := load memory 4 (command + 32)
  tableOfContentsNumEntries := load memory 4 (command + 36)
  moduleTableFileOffset := load memory 4 (command + 40)
  moduleTableNumEntries := load memory 4 (command + 44)
  referencedSymbolTableFileOffset := load memory 4 (command + 48)
  referencedSymbolTableNumEntries := load memory 4 (command + 52)
  indirectSymbolsOffset := load memory 4 (command + 56)
  numIndirectSymbols := load memory 4 (command + 60)
  externalRelocationsOffset := load memory 4 (command + 64)
  numExternalRelocations := load memory 4 (command + 68)
  localRelocationsOffset := load memory 4 (command + 72)
  numOfLocalRelocations := load memory 4 (command + 76)

def segmentAccepted (fileSize command : Nat) : Bool :=
  let segment := readSegment memory arch command
  decide (segmentCommandSize arch ≤ commandSize memory command) &&
    (match baseOverflowMulAdd uintn (numSections memory arch command) (sectionSize arch)
        (command + segmentCommandSize arch) with
      | some top => decide (top ≤ command + commandSize memory command)
      | none => false) &&
    (match baseOverflowAdd (limit arch) segment.fileOffset segment.fileSize with
      | some top => decide (top ≤ fileSize)
      | none => false) &&
    decide (segment.virtualAddress ≤ (segment.virtualAddress + segment.size) % limit arch)

end Fields

section Reading
variable (memory : Memory) (uintn : Nat) (context : MachoContext)

/-- All load commands in their order; walking along those of one type meets them
in this order. -/
def commandPlaces : List Nat :=
  starts (nextMachLoadCommand memory uintn) (headerNumCommands memory context.machHeader)
    context.commands

def placesOf (type : Nat) : List Nat :=
  (commandPlaces memory uintn context).filter fun command => commandType memory command == type

/-- What `MachoGetNextSegment` returns from the first segment on, until it returns
`NULL`. -/
def segmentPlaces : List Nat :=
  (placesOf memory uintn context (segmentCommandType context.arch)).takeWhile
    (segmentAccepted memory uintn context.arch context.fileSize)

theorem segmentAccepted_inside {arch : MachX} {fileSize command : Nat}
    (accepted : segmentAccepted memory uintn arch fileSize command = true) :
    (readSegment memory arch command).fileOffset + (readSegment memory arch command).fileSize ≤
      fileSize := by
  rw [segmentAccepted, Bool.and_eq_true, Bool.and_eq_true] at accepted
  have inside := accepted.1.2
  split at inside
  · rename_i top added
    obtain ⟨rfl, _⟩ := baseOverflowAdd_eq_some added
    exact of_decide_eq_true inside
  · cases inside

theorem sum_starts {left start stop : Nat}
    (tiled : Tiled (nextMachLoadCommand memory uintn) left start stop)
    (sized : ∀ command ∈ starts (nextMachLoadCommand memory uintn) left start,
      nextMachLoadCommand memory uintn command = command + commandSize memory command) :
    start + ((starts (nextMachLoadCommand memory uintn) left start).map
      (commandSize memory)).sum = stop := by
  induction left generalizing start with
  | zero => exact tiled
  | succ left ih =>
    have rest := ih tiled.2 fun command member => sized command (mem_cons_of_mem _ member)
    have first := sized start mem_cons_self
    rw [starts, map_cons, sum_cons]
    omega

theorem command_inside {top type command : Nat}
    (checked : HeaderChecked memory uintn context.arch context.machHeader top)
    (member : command ∈ placesOf memory uintn context type) :
    command - context.machHeader + commandSize memory command ≤
      context.arch.headerSize + headerCommandsSize memory context.machHeader := by
  have place := mem_of_mem_filter member
  obtain ⟨lower, _, upper⟩ := checked.tiled.next_le place
  rw [(checked.checked command place).next] at upper
  rw [headerCommands] at lower upper
  omega

def imageOf (top : Nat) (fileFits : context.fileSize < u32)
    (headerFits : context.arch.headerSize + headerCommandsSize memory context.machHeader < u32)
    (checked : HeaderChecked memory uintn context.arch context.machHeader top) : Image where
  arch := context.arch
  fileData := fun offset => memory (context.machHeader + offset)
  fileSize := context.fileSize
  isObject := headerFileType memory context.machHeader == machHeaderFileTypeObject
  commandsSize := headerCommandsSize memory context.machHeader
  commands := (commandPlaces memory uintn context).map fun command =>
    ⟨commandType memory command, commandSize memory command⟩
  segments := (segmentPlaces memory uintn context).map (readSegment memory context.arch)
  symtab := (placesOf memory uintn context symtabCommandType).head?.map
    (readSymtab memory context.machHeader)
  dySymtab := (placesOf memory uintn context dySymtabCommandType).head?.map
    (readDySymtab memory context.machHeader)
  fileSizeFits := fileFits
  headerFits := headerFits
  commandsTiled := by
    rw [map_map]
    have total := sum_starts memory uintn checked.tiled
      fun command member => (checked.checked command member).next
    exact Nat.add_left_cancel total
  segmentsInside := by
    intro segment member
    rw [mem_map] at member
    obtain ⟨command, place, rfl⟩ := member
    exact segmentAccepted_inside memory uintn (mem_takeWhile_imp place)
  addressesFit := by
    intro segment member
    rw [mem_map] at member
    obtain ⟨command, -, rfl⟩ := member
    exact ⟨load_lt memory context.arch.uintSize _, load_lt memory context.arch.uintSize _⟩
  symtabInside := by
    intro table member
    obtain ⟨command, first, rfl⟩ := Option.mem_map.mp member
    exact command_inside memory uintn context checked (mem_of_head? first)
  dySymtabInside := by
    intro table member
    obtain ⟨command, first, rfl⟩ := Option.mem_map.mp member
    exact command_inside memory uintn context checked (mem_of_head? first)
  contentsFit := by
    intro table member
    obtain ⟨command, -, rfl⟩ := Option.mem_map.mp member
    exact ⟨load_lt memory 4 _, load_lt memory 4 _⟩

variable {memory uintn context} {fileData fileSize headerOffset innerSize : Nat} {is32Bit : Bool}
  (object : fileData + fileSize < uintn) (inside : headerOffset ≤ fileSize) (small : fileSize < u32)
  (accepted : machoInitializeContext memory uintn fileData fileSize headerOffset innerSize is32Bit =
    some context)
include object inside small accepted

theorem header_fits :
    context.arch.headerSize + headerCommandsSize memory context.machHeader < u32 := by
  obtain ⟨above, checked⟩ := machoInitializeContext_checked object inside accepted
  have bound := checked.inside
  rw [headerCommands] at bound
  omega

/-- The image of an accepted file. -/
def acceptedImage (sliceFits : context.fileSize < u32) : Image :=
  imageOf memory uintn context _ sliceFits (header_fits object inside small accepted)
    (machoInitializeContext_checked object inside accepted).2

end Reading

end OpenCore.MachoImage
