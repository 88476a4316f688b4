import OpenCore.Base
import OpenCore.AddressSpace
import OpenCore.RecordWalk

/-!
Mach-O files in memory: `FatGetArchitectureOffset` finds the slice of a FAT file for
the processor, `MachoInitializeContext` checks the header and its load commands, and
`MachoGetNextCommand` walks along the commands. Pointers are addresses below `uintn`,
the number of values of a `UINTN`, and their sums wrap.
-/

namespace OpenCore.MachoHeader

open Base AddressSpace RecordWalk

inductive MachX where
  | mach32
  | mach64
  deriving DecidableEq

namespace MachX

def uintSize : MachX → Nat
  | .mach32 => 4
  | .mach64 => 8

def headerSize : MachX → Nat
  | .mach32 => 28
  | .mach64 => 32

def signature : MachX → Nat
  | .mach32 => 0xFEEDFACE
  | .mach64 => 0xFEEDFACF

def cpuType : MachX → Nat
  | .mach32 => 7
  | .mach64 => 0x01000007

end MachX

def machHeaderFileTypeObject : Nat := 1
def machHeaderFileTypeExecute : Nat := 2
def machHeaderFileTypeKextBundle : Nat := 11
def machHeaderFileTypeFileSet : Nat := 12

def machFatBinarySignature : Nat := 0xCAFEBABE
def machFatBinaryInvertSignature : Nat := 0xBEBAFECA
def efiFatBinarySignature : Nat := 0x0EF1FAB9

/-- `BASE_TYPE_ALIGNED` of the headers and commands, which are made of 32-bit fields. -/
def Aligned (address : Nat) : Prop := address % 4 = 0

instance (address : Nat) : Decidable (Aligned address) := inferInstanceAs (Decidable (_ = _))

structure MachoContext where
  machHeader : Nat
  is32Bit : Bool
  fileData : Nat
  fileSize : Nat
  innerSize : Nat
  deriving DecidableEq

section Fat
variable (memory : Memory)

def fatField (swapBytes : Bool) (address : Nat) : Nat :=
  if swapBytes then swapBytes32 (load memory 4 address) else load memory 4 address

def fatArchFrom (swapBytes : Bool) (fullSize cpuType : Nat) :
    Nat → Nat → Except EfiStatus (Nat × Nat)
  | 0, _ => .error .notFound
  | left + 1, entry =>
    if fatField memory swapBytes entry = cpuType then
      let offset := fatField memory swapBytes (entry + 8)
      let size := fatField memory swapBytes (entry + 12)
      if offset = 0 then .error .invalidParameter
      else
        match baseOverflowAdd u32 offset size with
        | none => .error .invalidParameter
        | some top => if top > fullSize then .error .invalidParameter else .ok (offset, size)
    else fatArchFrom swapBytes fullSize cpuType left (entry + 20)

def fatGetArchitectureOffset (buffer bufferSize fullSize cpuType : Nat) :
    Except EfiStatus (Nat × Nat) :=
  if bufferSize < 8 ∨ ¬Aligned buffer then .error .invalidParameter
  else
    let signature := load memory 4 buffer
    if signature ≠ machFatBinaryInvertSignature ∧ signature ≠ machFatBinarySignature ∧
        signature ≠ efiFatBinarySignature then .ok (0, fullSize)
    else
      let swapBytes := signature == machFatBinaryInvertSignature
      let numberOfFatArch := fatField memory swapBytes (buffer + 4)
      match baseOverflowMulAdd u32 numberOfFatArch 20 8 with
      | none => .error .invalidParameter
      | some size =>
        if size > bufferSize then .error .invalidParameter
        else fatArchFrom memory swapBytes fullSize cpuType numberOfFatArch (buffer + 8)

/-- `FatFilterArchitecture32` and `FatFilterArchitecture64`: where the slice lies. -/
def fatFilterArchitecture (uintn : Nat) (arch : MachX) (fileData fileSize : Nat) :
    Except EfiStatus (Nat × Nat) := do
  let (offset, size) ← fatGetArchitectureOffset memory fileData fileSize fileSize arch.cpuType
  return ((fileData + offset) % uintn, size)

end Fat

section Header
variable (memory : Memory) (uintn : Nat) (arch : MachX) (header : Nat)

def headerCpuType : Nat := load memory 4 (header + 4)
def headerFileType : Nat := load memory 4 (header + 12)
def headerNumCommands : Nat := load memory 4 (header + 16)
def headerCommandsSize : Nat := load memory 4 (header + 20)

def headerCommands : Nat := header + arch.headerSize

def commandType (command : Nat) : Nat := load memory 4 command
def commandSize (command : Nat) : Nat := load memory 4 (command + 4)

def nextMachLoadCommand (command : Nat) : Nat := (command + commandSize memory command) % uintn

def checkCommands (topOfCommands : Nat) : Nat → Nat → Nat → Option Nat
  | 0, _, commandsSize => some commandsSize
  | left + 1, command, commandsSize =>
    match baseOverflowAdd uintn command 8 with
    | none => none
    | some topOfCommand =>
      if topOfCommand > topOfCommands ∨ commandSize memory command < 8 ∨
          commandSize memory command % arch.uintSize ≠ 0 then none
      else
        match baseOverflowAdd u32 commandsSize (commandSize memory command) with
        | none => none
        | some commandsSize =>
          checkCommands topOfCommands left (nextMachLoadCommand memory uintn command)
            commandsSize

/-- The checks of `MachoInitializeContext` on a header with so many bytes of file. -/
def headerAccepted (topOfFile fileSize : Nat) : Bool :=
  if fileSize < arch.headerSize ∨ ¬Aligned header then false
  else if load memory 4 header ≠ arch.signature then false
  else
    match baseOverflowAdd uintn (headerCommands arch header)
        (headerCommandsSize memory header) with
    | none => false
    | some topOfCommands =>
      if topOfCommands > topOfFile then false
      else
        match checkCommands memory uintn arch topOfCommands (headerNumCommands memory header)
            (headerCommands arch header) 0 with
        | none => false
        | some commandsSize =>
          if headerCommandsSize memory header ≠ commandsSize then false
          else if headerCpuType memory header ≠ arch.cpuType then false
          else
            headerFileType memory header == machHeaderFileTypeKextBundle ||
              headerFileType memory header == machHeaderFileTypeExecute ||
              headerFileType memory header == machHeaderFileTypeFileSet ||
              arch == .mach32 && headerFileType memory header == machHeaderFileTypeObject

end Header

def acceptHeader (memory : Memory) (uintn : Nat) (arch : MachX)
    (topOfFile machData fileData fileSize innerSize : Nat) : Option MachoContext :=
  if headerAccepted memory uintn arch machData topOfFile fileSize then
    some ⟨machData, headerCpuType memory machData == MachX.cpuType .mach32, fileData, fileSize,
      innerSize⟩
  else none

def machoInitializeContextX (memory : Memory) (uintn : Nat) (arch : MachX)
    (fileData fileSize headerOffset innerSize : Nat) : Option MachoContext :=
  let topOfFile := (fileData + fileSize) % uintn
  let machData := (fileData + headerOffset) % uintn
  if headerOffset = 0 then
    match fatFilterArchitecture memory uintn arch machData fileSize with
    | .error _ => none
    | .ok (slice, sliceSize) =>
      acceptHeader memory uintn arch topOfFile slice slice sliceSize sliceSize
  else acceptHeader memory uintn arch topOfFile machData fileData fileSize innerSize

def machoInitializeContext (memory : Memory) (uintn fileData fileSize headerOffset innerSize : Nat)
    (is32Bit : Bool) : Option MachoContext :=
  machoInitializeContextX memory uintn (if is32Bit then .mach32 else .mach64) fileData fileSize
    headerOffset innerSize

section Walk
variable (memory : Memory) (uintn : Nat) (ctx : MachoContext)

def MachoContext.arch (ctx : MachoContext) : MachX :=
  if ctx.is32Bit then .mach32 else .mach64

def MachoContext.commands (ctx : MachoContext) : Nat := headerCommands ctx.arch ctx.machHeader

def topOfCommands : Nat :=
  (ctx.commands + headerCommandsSize memory ctx.machHeader) % uintn

def firstCommand : Option Nat → Nat
  | some command => nextMachLoadCommand memory uintn command
  | none => ctx.commands

def machoGetNextCommand (fuel loadCommandType : Nat) (loadCommand : Option Nat) :
    Option (List Nat × Option Nat) :=
  search (nextMachLoadCommand memory uintn)
    (fun command => commandType memory command == loadCommandType)
    (topOfCommands memory uintn ctx) fuel (firstCommand memory uintn ctx loadCommand)

/-- The calls of `MachoGetNextCommand` from the first command on, each with what the last one
has found, until none is found. -/
def iterateCommands (loadCommandType : Nat) : Nat → Option Nat → Option (List Nat)
  | 0, _ => none
  | fuel + 1, loadCommand =>
    match machoGetNextCommand memory uintn ctx (fuel + 1) loadCommandType loadCommand with
    | none => none
    | some (visited, none) => some visited
    | some (visited, some command) =>
      (iterateCommands loadCommandType fuel (some command)).map fun rest => visited ++ rest

end Walk

section Checked
variable {memory : Memory} {uintn : Nat} {arch : MachX}
variable {topOfCommands left command commandsSize total : Nat}

theorem checkCommands_le
    (checked : checkCommands memory uintn arch topOfCommands left command commandsSize = some total) :
    commandsSize ≤ total := by
  induction left generalizing command commandsSize with
  | zero => exact le_of_eq (Option.some.inj checked)
  | succ left ih =>
    rw [checkCommands] at checked
    split at checked
    · cases checked
    · split at checked
      · cases checked
      · split at checked
        · cases checked
        · rename_i sum added
          obtain ⟨rfl, _⟩ := baseOverflowAdd_eq_some added
          have rest := ih checked
          omega

structure CommandChecked (memory : Memory) (uintn : Nat) (arch : MachX) (command : Nat) : Prop where
  least : 8 ≤ commandSize memory command
  unit : commandSize memory command % arch.uintSize = 0
  next : nextMachLoadCommand memory uintn command = command + commandSize memory command

theorem checkCommands_tiled
    (checked : checkCommands memory uintn arch topOfCommands left command commandsSize = some total)
    (space : command + (total - commandsSize) < uintn) :
    Tiled (nextMachLoadCommand memory uintn) left command (command + (total - commandsSize)) ∧
      ∀ place ∈ starts (nextMachLoadCommand memory uintn) left command,
        CommandChecked memory uintn arch place := by
  induction left generalizing command commandsSize with
  | zero =>
    cases Option.some.inj checked
    rw [Nat.sub_self]
    exact ⟨rfl, fun place member => nomatch member⟩
  | succ left ih =>
    rw [checkCommands] at checked
    split at checked
    · cases checked
    · split at checked
      · cases checked
      · rename_i passed
        split at checked
        · cases checked
        · rename_i sum added
          obtain ⟨rfl, _⟩ := baseOverflowAdd_eq_some added
          rw [not_or, not_or, not_not] at passed
          obtain ⟨_, least, unit⟩ := passed
          have rest := checkCommands_le checked
          have next : nextMachLoadCommand memory uintn command =
              command + commandSize memory command := by
            rw [nextMachLoadCommand, Nat.mod_eq_of_lt (by omega)]
          have same : nextMachLoadCommand memory uintn command +
              (total - (commandsSize + commandSize memory command)) =
                command + (total - commandsSize) := by omega
          obtain ⟨tiled, others⟩ := ih checked (by omega)
          rw [same] at tiled
          refine ⟨⟨by omega, tiled⟩, ?_⟩
          intro place member
          rw [starts, List.mem_cons] at member
          rcases member with rfl | later
          · exact ⟨by omega, unit, next⟩
          · exact others place later

theorem aligned_starts {left command : Nat} (first : Aligned command)
    (passed : ∀ place ∈ starts (nextMachLoadCommand memory uintn) left command,
      CommandChecked memory uintn arch place) :
    ∀ place ∈ starts (nextMachLoadCommand memory uintn) left command, Aligned place := by
  induction left generalizing command with
  | zero =>
    intro place member
    cases member
  | succ left ih =>
    intro place member
    rw [starts, List.mem_cons] at member
    rcases member with rfl | later
    · exact first
    · have here := passed command (List.mem_cons_self ..)
      have fields : commandSize memory command % 4 = 0 := by
        have unit := here.unit
        cases arch with
        | mach32 => exact unit
        | mach64 =>
          have whole : commandSize memory command % 8 = 0 := unit
          omega
      have second : Aligned (nextMachLoadCommand memory uintn command) := by
        have start : command % 4 = 0 := first
        rw [here.next, Aligned]
        omega
      exact ih second (fun place later => passed place (List.mem_cons_of_mem _ later)) place later

structure HeaderChecked (memory : Memory) (uintn : Nat) (arch : MachX) (header top : Nat) : Prop where
  aligned : Aligned header
  cpuType : headerCpuType memory header = arch.cpuType
  inside : headerCommands arch header + headerCommandsSize memory header ≤ top
  tiled : Tiled (nextMachLoadCommand memory uintn) (headerNumCommands memory header)
    (headerCommands arch header) (headerCommands arch header + headerCommandsSize memory header)
  checked : ∀ command ∈ starts (nextMachLoadCommand memory uintn) (headerNumCommands memory header)
    (headerCommands arch header), CommandChecked memory uintn arch command

theorem headerAccepted_checked {header topOfFile fileSize : Nat}
    (accepted : headerAccepted memory uintn arch header topOfFile fileSize = true) :
    HeaderChecked memory uintn arch header topOfFile := by
  rw [headerAccepted] at accepted
  split at accepted
  · cases accepted
  · rename_i sized
    rw [not_or, not_not] at sized
    split at accepted
    · cases accepted
    · split at accepted
      · cases accepted
      · rename_i topOfCommands added
        obtain ⟨rfl, space⟩ := baseOverflowAdd_eq_some added
        split at accepted
        · cases accepted
        · rename_i inside
          split at accepted
          · cases accepted
          · rename_i commandsSize walked
            split at accepted
            · cases accepted
            · rename_i same
              split at accepted
              · cases accepted
              · rename_i cpuType
                rw [not_not] at same cpuType
                subst same
                have tiles := checkCommands_tiled walked (by rwa [Nat.sub_zero])
                rw [Nat.sub_zero] at tiles
                exact ⟨sized.2, cpuType, Nat.le_of_not_lt inside, tiles.1, tiles.2⟩

end Checked

section Slice
variable {memory : Memory} {uintn fileData fileSize : Nat}

theorem fatArchFrom_inside {swapBytes : Bool} {fullSize cpuType left entry offset size : Nat}
    (found : fatArchFrom memory swapBytes fullSize cpuType left entry = .ok (offset, size)) :
    offset + size ≤ fullSize := by
  induction left generalizing entry with
  | zero => cases found
  | succ left ih =>
    rw [fatArchFrom] at found
    split at found
    · simp only at found
      split at found
      · cases found
      · split at found
        · cases found
        · rename_i top added
          obtain ⟨rfl, _⟩ := baseOverflowAdd_eq_some added
          split at found
          · cases found
          · rename_i inside
            cases found
            exact Nat.le_of_not_lt inside
    · exact ih found

theorem fatGetArchitectureOffset_inside {cpuType offset size : Nat}
    (found : fatGetArchitectureOffset memory fileData fileSize fileSize cpuType =
      .ok (offset, size)) : offset + size ≤ fileSize := by
  rw [fatGetArchitectureOffset] at found
  split at found
  · cases found
  · simp only at found
    split at found
    · cases found
      exact le_of_eq (Nat.zero_add _)
    · split at found
      · cases found
      · split at found
        · cases found
        · exact fatArchFrom_inside found

theorem fatFilterArchitecture_inside {arch : MachX} {slice size : Nat}
    (object : fileData + fileSize < uintn)
    (found : fatFilterArchitecture memory uintn arch fileData fileSize = .ok (slice, size)) :
    fileData ≤ slice ∧ slice + size ≤ fileData + fileSize := by
  rw [fatFilterArchitecture] at found
  cases offset : fatGetArchitectureOffset memory fileData fileSize fileSize arch.cpuType with
  | error status =>
    rw [offset] at found
    cases found
  | ok place =>
    have inside := @fatGetArchitectureOffset_inside memory fileData fileSize _ place.1 place.2 offset
    rw [offset] at found
    cases found
    show fileData ≤ (fileData + place.1) % uintn ∧
      (fileData + place.1) % uintn + place.2 ≤ fileData + fileSize
    rw [Nat.mod_eq_of_lt (by omega)]
    omega

theorem acceptHeader_checked {arch : MachX} {topOfFile machData innerSize : Nat}
    {ctx : MachoContext}
    (accepted : acceptHeader memory uintn arch topOfFile machData fileData fileSize innerSize =
      some ctx) :
    ctx.machHeader = machData ∧ HeaderChecked memory uintn ctx.arch ctx.machHeader topOfFile := by
  rw [acceptHeader] at accepted
  split at accepted
  · rename_i header
    have checked := headerAccepted_checked header
    have arch : ctx.arch = arch := by
      cases accepted
      rw [MachoContext.arch, checked.cpuType]
      cases arch with
      | mach32 => rfl
      | mach64 => rfl
    have same : ctx.machHeader = machData := by
      cases accepted
      rfl
    rw [arch, same]
    exact ⟨rfl, checked⟩
  · cases accepted

theorem machoInitializeContext_checked {headerOffset innerSize : Nat} {is32Bit : Bool}
    {ctx : MachoContext} (object : fileData + fileSize < uintn) (inside : headerOffset ≤ fileSize)
    (accepted : machoInitializeContext memory uintn fileData fileSize headerOffset innerSize is32Bit =
      some ctx) :
    fileData ≤ ctx.machHeader ∧
      HeaderChecked memory uintn ctx.arch ctx.machHeader (fileData + fileSize) := by
  rw [machoInitializeContext, machoInitializeContextX] at accepted
  simp only [Nat.mod_eq_of_lt object] at accepted
  split at accepted
  · rename_i thin
    rw [thin, Nat.add_zero, Nat.mod_eq_of_lt (by omega)] at accepted
    split at accepted
    · cases accepted
    · rename_i slice size found
      have placed := fatFilterArchitecture_inside object found
      obtain ⟨same, checked⟩ := acceptHeader_checked accepted
      rw [same]
      exact ⟨placed.1, same ▸ checked⟩
  · rw [Nat.mod_eq_of_lt (show fileData + headerOffset < uintn by omega)] at accepted
    obtain ⟨same, checked⟩ := acceptHeader_checked accepted
    rw [same]
    exact ⟨Nat.le_add_right _ _, same ▸ checked⟩

end Slice

section Iteration
variable {memory : Memory} {uintn : Nat} {ctx : MachoContext}

theorem iterateCommands_eq (loadCommandType fuel : Nat) (loadCommand : Option Nat) :
    iterateCommands memory uintn ctx loadCommandType fuel loadCommand =
      searchAll (nextMachLoadCommand memory uintn)
        (fun command => commandType memory command == loadCommandType)
        (topOfCommands memory uintn ctx) fuel
        (firstCommand memory uintn ctx loadCommand) := by
  induction fuel generalizing loadCommand with
  | zero => rfl
  | succ fuel ih =>
    rw [iterateCommands, searchAll, machoGetNextCommand]
    generalize search _ _ _ _ _ = outcome
    rcases outcome with _ | ⟨visited, _ | command⟩
    · rfl
    · rfl
    · simp only
      rw [ih]
      rfl

end Iteration

/-- An accepted file: its header and load commands lie in it, each command is large enough
and aligned, together they are as long as the header says, and walking along the commands
of any type stays within them and ends after the last. -/
theorem machoInitializeContext_commands (memory : Memory)
    (uintn fileData fileSize headerOffset innerSize : Nat) (is32Bit : Bool) (ctx : MachoContext)
    (object : fileData + fileSize < uintn) (inside : headerOffset ≤ fileSize)
    (accepted : machoInitializeContext memory uintn fileData fileSize headerOffset innerSize is32Bit =
      some ctx) :
    let numCommands := headerNumCommands memory ctx.machHeader
    let commandsSize := headerCommandsSize memory ctx.machHeader
    let next := nextMachLoadCommand memory uintn
    (fileData ≤ ctx.machHeader ∧
      ctx.machHeader + ctx.arch.headerSize + commandsSize ≤ fileData + fileSize) ∧
    (∀ command ∈ starts next numCommands ctx.commands,
      ctx.commands ≤ command ∧
        command + commandSize memory command ≤ ctx.commands + commandsSize ∧
        8 ≤ commandSize memory command ∧ Aligned command ∧
        commandSize memory command % ctx.arch.uintSize = 0 ∧
        next command = command + commandSize memory command) ∧
    Tiled next numCommands ctx.commands (ctx.commands + commandsSize) ∧
    ∀ loadCommandType fuel, numCommands < fuel → ∃ visited,
      iterateCommands memory uintn ctx loadCommandType fuel none = some visited ∧
        visited.length ≤ numCommands ∧
        ∀ command ∈ visited, fileData ≤ command ∧ command + 8 ≤ fileData + fileSize := by
  obtain ⟨above, checked⟩ := machoInitializeContext_checked object inside accepted
  have top : topOfCommands memory uintn ctx =
      ctx.commands + headerCommandsSize memory ctx.machHeader := by
    have bound := checked.inside
    exact Nat.mod_eq_of_lt (lt_of_le_of_lt bound object)
  have start : Aligned ctx.commands := by
    have header : ctx.machHeader % 4 = 0 := checked.aligned
    rw [Aligned, MachoContext.commands, headerCommands]
    cases ctx.arch with
    | mach32 => show (ctx.machHeader + 28) % 4 = 0; omega
    | mach64 => show (ctx.machHeader + 32) % 4 = 0; omega
  have region : ctx.commands + headerCommandsSize memory ctx.machHeader ≤
      fileData + fileSize := checked.inside
  have first : fileData ≤ ctx.commands :=
    le_trans above (Nat.le_add_right _ _)
  refine ⟨⟨above, region⟩, ?_, checked.tiled, ?_⟩
  · intro command member
    have passed := checked.checked command member
    obtain ⟨lower, _, upper⟩ := checked.tiled.next_le member
    rw [passed.next] at upper
    exact ⟨lower, upper, passed.least, aligned_starts start checked.checked command member,
      passed.unit, passed.next⟩
  · intro loadCommandType fuel enough
    refine ⟨starts (nextMachLoadCommand memory uintn) (headerNumCommands memory ctx.machHeader)
      ctx.commands, ?_, le_of_eq length_starts, ?_⟩
    · rw [iterateCommands_eq, top]
      exact searchAll_tiled _ checked.tiled enough
    · intro command member
      have passed := checked.checked command member
      obtain ⟨lower, _, upper⟩ := checked.tiled.next_le member
      have least := passed.least
      rw [passed.next] at upper
      have lowest : ctx.commands ≤ command := lower
      have highest : command + commandSize memory command ≤
        ctx.commands + headerCommandsSize memory ctx.machHeader := upper
      omega

/-- A FAT file of one slice at address 4096: a 64-bit kext with one load command. -/
def sampleFat : Memory := fun address =>
  ([0xCA, 0xFE, 0xBA, 0xBE, 0, 0, 0, 1, 1, 0, 0, 7, 0, 0, 0, 3, 0, 0, 0, 32, 0, 0, 0, 40,
    0, 0, 0, 3, 0, 0, 0, 0,
    0xCF, 0xFA, 0xED, 0xFE, 7, 0, 0, 1, 3, 0, 0, 0, 11, 0, 0, 0, 1, 0, 0, 0, 8, 0, 0, 0,
    0, 0, 0, 0, 0, 0, 0, 0, 0x1B, 0, 0, 0, 8, 0, 0, 0] : List UInt8).getD (address - 4096) 0

theorem machoInitializeContext_commands_sample :
    machoInitializeContext sampleFat u64 4096 72 0 72 false =
        some ⟨4128, false, 4128, 40, 40⟩ ∧
      ∃ visited, iterateCommands sampleFat u64 ⟨4128, false, 4128, 40, 40⟩ 0x1B 2 none =
          some visited ∧ visited.length ≤ 1 ∧
        ∀ command ∈ visited, 4096 ≤ command ∧ command + 8 ≤ 4096 + 72 := by
  have accepted : machoInitializeContext sampleFat u64 4096 72 0 72 false =
      some ⟨4128, false, 4128, 40, 40⟩ := by decide
  have checked := machoInitializeContext_commands sampleFat u64 4096 72 0 72 false _ (by decide)
    (by decide) accepted
  exact ⟨accepted, checked.2.2.2 0x1B 2 (by decide)⟩

end OpenCore.MachoHeader
