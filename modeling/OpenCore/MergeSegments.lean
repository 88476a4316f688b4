import OpenCore.LoadCommands

/-!
How the segments of a Mach-O header that begin with a prefix are merged into the first of
them. The loop writes to that segment while it goes on; the commands behind the merged ones
are then moved up to it, and what they left is filled with zeros.
-/

namespace OpenCore.MergeSegments

open Base AddressSpace PlacedBytes LoadCommands MachoHeader

section Segments

inductive SegmentField where
  | virtualAddress
  | size
  | fileOffset
  | fileSize
  | maximumProtection
  | initialProtection
  deriving DecidableEq

def SegmentField.width (arch : MachX) : SegmentField → Nat
  | .virtualAddress => arch.uintSize
  | .size => arch.uintSize
  | .fileOffset => arch.uintSize
  | .fileSize => arch.uintSize
  | .maximumProtection => 4
  | .initialProtection => 4

def SegmentField.offset (arch : MachX) : SegmentField → Nat
  | .virtualAddress => 24
  | .size => 24 + arch.uintSize
  | .fileOffset => 24 + 2 * arch.uintSize
  | .fileSize => 24 + 3 * arch.uintSize
  | .maximumProtection => 24 + 4 * arch.uintSize
  | .initialProtection => 28 + 4 * arch.uintSize

def machLoadCommandSegment : MachX → Nat
  | .mach32 => 1
  | .mach64 => 25

def segmentCommandSize (arch : MachX) : Nat := 40 + 4 * arch.uintSize

def uintX (arch : MachX) : Nat := 256 ^ arch.uintSize

def readField (arch : MachX) (memory : Memory) (segment : Nat) (part : SegmentField) : Nat :=
  load memory (part.width arch) (segment + part.offset arch)

def writeField (arch : MachX) (memory : Memory) (segment : Nat) (part : SegmentField)
    (value : Nat) : Memory :=
  store memory (part.width arch) (segment + part.offset arch) value

/-- `AsciiStrnCmp` of a segment's name with a prefix, of which so many characters are left. -/
def beginsWith (memory : Memory) : List UInt8 → Nat → Bool
  | [], _ => true
  | ch :: rest, place => memory place == ch && beginsWith memory rest (place + 1)

end Segments

section Source
variable (arch : MachX)

def distance (first start size : Nat) : Nat := start + uintX arch - first + size

def expand (memory : Memory) (firstSegment segment : Nat) : Memory :=
  let memory := writeField arch memory firstSegment .size
    (distance arch (readField arch memory firstSegment .virtualAddress)
      (readField arch memory segment .virtualAddress) (readField arch memory segment .size))
  let memory := writeField arch memory firstSegment .fileSize
    (distance arch (readField arch memory firstSegment .fileOffset)
      (readField arch memory segment .fileOffset) (readField arch memory segment .fileSize))
  let memory := writeField arch memory firstSegment .initialProtection
    (readField arch memory firstSegment .initialProtection |||
      readField arch memory segment .initialProtection)
  writeField arch memory firstSegment .maximumProtection
    (readField arch memory firstSegment .maximumProtection |||
      readField arch memory segment .maximumProtection)

structure Found where
  loadCommand : Nat
  firstSegment : Option Nat
  skipCount : Nat

/-- The loop over the commands, of which so many are left; nothing is found where it
returns. -/
def mergeFrom (namePrefix : List UInt8) : Nat → Memory → Found → Memory × Option Found
  | 0, memory, found => (memory, some found)
  | left + 1, memory, found =>
    if commandType memory found.loadCommand ≠ machLoadCommandSegment arch ∨
        ¬beginsWith memory namePrefix (found.loadCommand + 8) then
      match found.firstSegment with
      | some _ => (memory, some found)
      | none =>
        mergeFrom namePrefix left memory
          { found with loadCommand := nextLoadCommand memory found.loadCommand }
    else if readField arch memory found.loadCommand .size ≠
        readField arch memory found.loadCommand .fileSize then (memory, none)
    else
      match found.firstSegment with
      | none =>
        mergeFrom namePrefix left memory
          { found with
            loadCommand := nextLoadCommand memory found.loadCommand
            firstSegment := some found.loadCommand }
      | some firstSegment =>
        let memory := expand arch memory firstSegment found.loadCommand
        mergeFrom namePrefix left memory
          { found with
            loadCommand := nextLoadCommand memory found.loadCommand
            skipCount := found.skipCount + 1 }

structure Header where
  memory : Memory
  numCommands : Nat
  commandsSize : Nat

/-- `InternalMachoMergeSegments` of a header whose commands are at an address. -/
def internalMachoMergeSegments (namePrefix : List UInt8) (commands : Nat) (header : Header) :
    Bool × Header :=
  match mergeFrom arch namePrefix header.numCommands header.memory ⟨commands, none, 0⟩ with
  | (memory, none) => (false, { header with memory := memory })
  | (memory, some ⟨_, none, _⟩) => (false, { header with memory := memory })
  | (memory, some ⟨loadCommand, some firstSegment, skipCount⟩) =>
    if skipCount = 0 then (false, { header with memory := memory })
    else
      let remainingArea := header.commandsSize - (loadCommand - commands)
      let moved := copyMem memory (firstSegment + commandSize memory firstSegment) loadCommand
        remainingArea
      (true,
        { memory := zeroMem moved loadCommand remainingArea
          numCommands := header.numCommands - skipCount
          commandsSize :=
            (header.commandsSize + u32 - segmentCommandSize arch * skipCount % u32) % u32 })

end Source

end OpenCore.MergeSegments
