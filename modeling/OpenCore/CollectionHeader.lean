import OpenCore.KextSymbols
import OpenCore.MergeSegments

/-!
How the header of a kernel collection is given its new load commands: one for each injected
kext, a segment that covers these, and a copy of the `__PRELINK_INFO` segment. The size
that they need is computed beforehand, and regions are merged if there is not room enough.
-/

namespace OpenCore.CollectionHeader

open Base AddressSpace PlacedBytes MachoHeader MergeSegments
open KextSymbols (AsciiString)

section Values

def machLoadCommandFilesetEntry : Nat := 53 + 0x80000000

/-- `sizeof (MACH_FILESET_ENTRY_COMMAND)`, which is also the offset of its `Payload`. -/
def filesetEntrySize : Nat := 32

def segment64Size : Nat := 72

def header64Size : Nat := 32

def align8 (value : Nat) : Nat := value + (8 - value % 8) % 8

def kcMoscowSegment : List UInt8 := [95, 95, 77, 79, 83, 67, 79, 87, 49, 48, 49, 0]

def kremlinStart : List UInt8 := [95, 95, 75, 82, 69, 77, 76, 73, 78, 95, 83, 84, 65, 82, 84, 0]
def kremlinStartSection : List UInt8 :=
  [95, 95, 107, 114, 101, 109, 108, 105, 110, 95, 115, 116, 97, 114, 116, 0]

def kcRegionSegmentPrefix : List UInt8 := [95, 95, 82, 69, 71, 73, 79, 78]

def allProtections : Nat := 7

end Values

section Source

structure InjectedKext where
  identifier : AsciiString
  virtualBase : Nat
  headerOffset : Nat

def InjectedKext.stringSize (kext : InjectedKext) : Nat := kext.identifier.length + 1

structure Collection where
  memory : Memory
  prelinked : Nat
  numCommands : Nat
  commandsSize : Nat
  injectedKexts : List InjectedKext
  prelinkedInfoSegment : Nat
  prelinkedInfoSection : Nat
  kextsVmAddress : Nat
  kextsFileOffset : Nat
  prelinkedLastAddress : Nat
  prelinkedSize : Nat

def Collection.commands (collection : Collection) : Nat := collection.prelinked + header64Size

def internalKcGetKextFilesetSize : List InjectedKext → Nat
  | [] => 0
  | kext :: rest => align8 (filesetEntrySize + kext.stringSize) + internalKcGetKextFilesetSize rest

def writeFilesetEntry (memory : Memory) (command : Nat) (kext : InjectedKext) : Memory :=
  let memory := store memory 4 command machLoadCommandFilesetEntry
  let memory := store memory 4 (command + 4) (align8 (filesetEntrySize + kext.stringSize) % u32)
  let memory := store memory 8 (command + 8) kext.virtualBase
  let memory := store memory 8 (command + 16) kext.headerOffset
  let memory := store memory 4 (command + 24) filesetEntrySize
  let memory := store memory 4 (command + 28) 0
  let memory := writeBytes memory (command + 32) (kext.identifier.chars ++ [0])
  zeroMem memory (command + 32 + kext.stringSize)
    (commandSize memory command - load memory 4 (command + 24) - kext.stringSize)

def Collection.counted (collection : Collection) (size : Nat) : Collection :=
  { collection with
    numCommands := (collection.numCommands + 1) % u32
    commandsSize := (collection.commandsSize + size) % u32 }

def writeFilesetEntries : List InjectedKext → Nat → Collection → Nat × Collection
  | [], command, collection => (command, collection)
  | kext :: rest, command, collection =>
    let memory := writeFilesetEntry collection.memory command kext
    let written := { collection with memory := memory }
    writeFilesetEntries rest (command + commandSize memory command)
      (written.counted (commandSize memory command))

def writeKextsSegment (command : Nat) (collection : Collection) : Memory :=
  let memory := store collection.memory 4 command (machLoadCommandSegment .mach64)
  let memory := store memory 4 (command + 4) segment64Size
  let memory := writeBytes memory (command + 8) kcMoscowSegment
  let memory := zeroMem memory (command + 8 + kcMoscowSegment.length) (16 - kcMoscowSegment.length)
  let memory := writeField .mach64 memory command .virtualAddress collection.kextsVmAddress
  let memory := writeField .mach64 memory command .fileOffset collection.kextsFileOffset
  let memory := writeField .mach64 memory command .size
    (collection.prelinkedLastAddress + uintX .mach64 - collection.kextsVmAddress)
  let memory := writeField .mach64 memory command .fileSize
    ((collection.prelinkedSize + u32 - collection.kextsFileOffset) % u32)
  let memory := writeField .mach64 memory command .maximumProtection allProtections
  let memory := writeField .mach64 memory command .initialProtection allProtections
  let memory := store memory 4 (command + 64) 0
  store memory 4 (command + 68) 0

def writeInfoSegment (command : Nat) (collection : Collection) : Memory :=
  let memory := copyMem collection.memory command collection.prelinkedInfoSegment
    (commandSize collection.memory collection.prelinkedInfoSegment)
  let memory := writeBytes memory (collection.prelinkedInfoSegment + 8) kremlinStart
  let memory := writeBytes memory (collection.prelinkedInfoSection + 16) kremlinStart
  writeBytes memory collection.prelinkedInfoSection kremlinStartSection

def Collection.addKextsSegment (collection : Collection) (command : Nat) : Collection :=
  let written := { collection with memory := writeKextsSegment command collection }
  written.counted segment64Size

def Collection.addInfoSegment (collection : Collection) (command : Nat) : Collection :=
  let written := { collection with memory := writeInfoSegment command collection }
  let counted := written.counted (commandSize written.memory written.prelinkedInfoSegment)
  { counted with
    prelinkedInfoSegment := command
    prelinkedInfoSection := command + segment64Size }

def internalKcWriteCommandHeaders (collection : Collection) : Collection :=
  let (command, collection) := writeFilesetEntries collection.injectedKexts
    (collection.commands + collection.commandsSize) collection
  let collection := collection.addKextsSegment command
  collection.addInfoSegment (command + commandSize collection.memory command)

def Collection.requiredSize (collection : Collection) : Nat :=
  internalKcGetKextFilesetSize collection.injectedKexts + segment64Size +
    commandSize collection.memory collection.prelinkedInfoSegment

def Collection.currentSize (collection : Collection) : Nat := collection.commandsSize + header64Size

def Collection.merged (collection : Collection) : Bool × Collection :=
  let (merged, header) := internalMachoMergeSegments .mach64 kcRegionSegmentPrefix
    collection.commands ⟨collection.memory, collection.numCommands, collection.commandsSize⟩
  (merged,
    { collection with
      memory := header.memory
      numCommands := header.numCommands
      commandsSize := header.commandsSize })

/-- `KcRebuildMachHeader`, where a lookup by name finds the `__TEXT` segment. -/
def kcRebuildMachHeader (textSegment : Option Nat) (collection : Collection) :
    Except EfiStatus Unit × Collection :=
  let requiredSize := collection.requiredSize
  match textSegment with
  | none => (.error .invalidParameter, collection)
  | some textSegment =>
    let text := readField .mach64 collection.memory textSegment
    if text .fileOffset ≠ 0 ∨ text .fileSize ≠ text .size ∨
        text .fileSize < collection.currentSize then (.error .invalidParameter, collection)
    else
      let (merged, collection) :=
        if collection.currentSize + requiredSize > text .fileSize then collection.merged
        else (true, collection)
      if ¬merged then (.error .unsupported, collection)
      else if collection.currentSize + requiredSize >
          readField .mach64 collection.memory textSegment .fileSize then
        (.error .unsupported, collection)
      else (.ok (), internalKcWriteCommandHeaders collection)

end Source

end OpenCore.CollectionHeader
