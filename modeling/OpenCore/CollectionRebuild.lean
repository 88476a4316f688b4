import Mathlib.Data.List.Forall2
import OpenCore.CollectionCommands

/-!
What a kernel collection's header holds after it is rebuilt without a merge: the commands it
had, with the old `__PRELINK_INFO` renamed, and behind them the new ones, as large together
as was computed for them and within the `__TEXT` segment.
-/

namespace OpenCore.CollectionRebuild

open Base AddressSpace PlacedBytes MachoHeader LoadCommands MergeSegments MergedSegments List
open CollectionHeader CollectionCommands

/-- A collection whose header holds some commands, one of which is `__PRELINK_INFO` with a
section at an offset. -/
structure Stands (collection : Collection) (front : List LoadCommand) (info : LoadCommand)
    (back : List LoadCommand) (sectionOffset : Nat) : Prop where
  numCommands : collection.numCommands = (front ++ info :: back).length
  commandsSize : collection.commandsSize = totalSize (front ++ info :: back)
  holds : Holds collection.memory collection.commands (allBytes (front ++ info :: back))
  infoSegment : collection.prelinkedInfoSegment = collection.commands + totalSize front
  infoSection : collection.prelinkedInfoSection = collection.prelinkedInfoSegment + sectionOffset
  behind : 72 ≤ sectionOffset
  inside : sectionOffset + 80 ≤ info.size
  lastAddress : collection.prelinkedLastAddress < u64

def rebuiltCommands (collection : Collection) (front : List LoadCommand)
    (info old : LoadCommand) (back entries : List LoadCommand) : List LoadCommand :=
  front ++ old :: back ++ (entries ++ [kextsSegment collection, info])

structure Rebuilt (collection : Collection) (front : List LoadCommand) (info old : LoadCommand)
    (back entries : List LoadCommand) (rebuilt : Collection) : Prop where
  described : Forall₂ Describes collection.injectedKexts entries
  aligned : ∀ entry ∈ entries, entry.size % 8 = 0
  covers : collection.kextsVmAddress ≤ collection.prelinkedLastAddress →
    get .mach64 .virtualAddress (kextsSegment collection) = collection.kextsVmAddress ∧
      get .mach64 .size (kextsSegment collection) =
        collection.prelinkedLastAddress - collection.kextsVmAddress
  computed : totalSize (entries ++ [kextsSegment collection, info]) = collection.requiredSize
  numCommands : rebuilt.numCommands =
    (rebuiltCommands collection front info old back entries).length
  commandsSize : rebuilt.commandsSize =
    totalSize (rebuiltCommands collection front info old back entries)
  holds : Holds rebuilt.memory collection.commands
    (allBytes (rebuiltCommands collection front info old back entries))
  walked : walk rebuilt.memory rebuilt.numCommands collection.commands =
    (rebuiltCommands collection front info old back entries).map LoadCommand.bytes
  frame : ∀ place,
    place < collection.prelinkedInfoSegment ∨ collection.prelinkedInfoSegment + info.size ≤ place →
    place < collection.commands + collection.commandsSize ∨
      collection.commands + collection.commandsSize + collection.requiredSize ≤ place →
    rebuilt.memory place = collection.memory place
  infoSegment : rebuilt.prelinkedInfoSegment + info.size =
    collection.commands + rebuilt.commandsSize
  infoSection : rebuilt.prelinkedInfoSection = rebuilt.prelinkedInfoSegment + segment64Size

section Sizes

theorem length_le_totalSize (commands : List LoadCommand) : commands.length ≤ totalSize commands := by
  induction commands with
  | nil => exact le_refl _
  | cons command rest ih =>
    have positive := command.size_pos
    rw [length_cons, totalSize_cons]
    omega

theorem length_le_filesetSize (kexts : List InjectedKext) :
    kexts.length ≤ internalKcGetKextFilesetSize kexts := by
  induction kexts with
  | nil => exact le_refl _
  | cons kext rest ih =>
    have enough := le_align8 (filesetEntrySize + kext.stringSize)
    rw [length_cons, internalKcGetKextFilesetSize]
    simp only [filesetEntrySize] at enough ⊢
    omega

theorem entries_aligned {kexts : List InjectedKext} {entries : List LoadCommand}
    (described : Forall₂ Describes kexts entries) : ∀ entry ∈ entries, entry.size % 8 = 0 := by
  induction described with
  | nil => exact fun _ member => absurd member not_mem_nil
  | cons describes _ ih =>
    obtain ⟨small, rfl⟩ := describes
    refine forall_mem_cons.mpr ⟨?_, ih⟩
    rw [filesetEntry_size]
    exact align8_mod _

end Sizes

section Writes
variable {collection : Collection} {front back : List LoadCommand} {info : LoadCommand}
  {sectionOffset : Nat}

theorem info_holds (stands : Stands collection front info back sectionOffset) :
    Holds collection.memory collection.prelinkedInfoSegment info.bytes := by
  have holds := stands.holds
  rw [allBytes_append, holds_append, length_allBytes, holds_cons] at holds
  rw [stands.infoSegment]
  exact holds.2.1

theorem kextsSegment_congr (collection : Collection) (memory : Memory) (number size : Nat) :
    kextsSegment { collection with memory := memory, numCommands := number, commandsSize := size } =
      kextsSegment collection := by
  cases collection
  rfl

theorem addKextsSegment_eq {collection : Collection} {command : Nat}
    (number : collection.numCommands + 1 < u32)
    (small : collection.commandsSize + segment64Size < u32) :
    collection.addKextsSegment command = { collection with
        memory := writeKextsSegment command collection
        numCommands := collection.numCommands + 1
        commandsSize := collection.commandsSize + segment64Size } := by
  rw [Collection.addKextsSegment, Collection.counted]
  dsimp only
  rw [Nat.mod_eq_of_lt number, Nat.mod_eq_of_lt small]

theorem addInfoSegment_eq {collection : Collection} {command size : Nat}
    (sized : commandSize (writeInfoSegment command collection) collection.prelinkedInfoSegment = size)
    (number : collection.numCommands + 1 < u32) (small : collection.commandsSize + size < u32) :
    collection.addInfoSegment command = { collection with
        memory := writeInfoSegment command collection
        numCommands := collection.numCommands + 1
        commandsSize := collection.commandsSize + size
        prelinkedInfoSegment := command
        prelinkedInfoSection := command + segment64Size } := by
  rw [Collection.addInfoSegment, Collection.counted]
  dsimp only
  rw [sized, Nat.mod_eq_of_lt number, Nat.mod_eq_of_lt small]

section

variable (stands : Stands collection front info back sectionOffset)
  (room : collection.commandsSize + collection.requiredSize < u32)
include stands room

theorem internalKcWriteCommandHeaders_spec :
    ∃ entries last, Forall₂ Describes collection.injectedKexts entries ∧
      totalSize (entries ++ [kextsSegment collection, info]) = collection.requiredSize ∧
      Holds last (collection.commands + collection.commandsSize)
        (allBytes (entries ++ [kextsSegment collection, info])) ∧
      Holds last collection.prelinkedInfoSegment
        (renamed info sectionOffset (le_trans (by decide) stands.behind)).bytes ∧ (∀ place,
        place < collection.prelinkedInfoSegment ∨
          collection.prelinkedInfoSegment + info.size ≤ place →
        place < collection.commands + collection.commandsSize ∨
          collection.commands + collection.commandsSize + collection.requiredSize ≤ place →
        last place = collection.memory place) ∧ internalKcWriteCommandHeaders collection =
        { collection with
          memory := last
          numCommands := collection.numCommands + entries.length + 2
          commandsSize := collection.commandsSize + collection.requiredSize
          prelinkedInfoSegment := collection.commands + collection.commandsSize +
            totalSize entries + segment64Size
          prelinkedInfoSection := collection.commands + collection.commandsSize +
            totalSize entries + segment64Size + segment64Size } := by
  have infoHolds := info_holds stands
  have infoSize := commandSize_eq infoHolds
  have required : collection.requiredSize =
      internalKcGetKextFilesetSize collection.injectedKexts + segment64Size + info.size := by
    rw [Collection.requiredSize, infoSize]
  have counted := length_le_totalSize (front ++ info :: back)
  rw [← stands.numCommands, ← stands.commandsSize] at counted
  have kexts := length_le_filesetSize collection.injectedKexts
  have positive := info.size_pos
  have segmentSize : segment64Size = 72 := rfl
  have whole := stands.commandsSize
  rw [totalSize_append, totalSize_cons] at whole
  obtain ⟨entries, memory, described, total, wrote, ran⟩ :=
    writeFilesetEntries_wrote collection.injectedKexts
      (collection.commands + collection.commandsSize) collection (by omega) (by omega)
  have lengths : collection.injectedKexts.length = entries.length := described.length_eq
  -- The segment behind the fileset commands.
  have covering := writeKextsSegment_wrote
    (collection.commands + collection.commandsSize + totalSize entries)
    { collection with
      memory := memory
      numCommands := collection.numCommands + collection.injectedKexts.length
      commandsSize := collection.commandsSize + totalSize entries }
  rw [kextsSegment_congr] at covering
  have coveringSize := commandSize_eq covering.holds
  rw [kextsSegment_size] at coveringSize
  have both := wrote.append (by rw [length_allBytes]; exact covering)
  -- The copy behind that, with the old segment where it was.
  have infoThere := infoHolds.congr fun place _ upper => both.frame place (Or.inl (by
    have inside : info.bytes.length = info.size := rfl
    rw [stands.infoSegment] at upper
    omega))
  obtain ⟨copy, old, frame⟩ := @writeInfoSegment_spec
    (collection.commands + collection.commandsSize + totalSize entries + segment64Size)
    sectionOffset
    { collection with
      memory := writeKextsSegment
        (collection.commands + collection.commandsSize + totalSize entries)
        { collection with
          memory := memory
          numCommands := collection.numCommands + collection.injectedKexts.length
          commandsSize := collection.commandsSize + totalSize entries }
      numCommands := collection.numCommands + collection.injectedKexts.length + 1
      commandsSize := collection.commandsSize + totalSize entries + segment64Size }
    info stands.behind stands.inside infoThere
    (by dsimp only; rw [stands.infoSegment]; omega) stands.infoSection
  have oldSize := commandSize_eq old
  rw [renamed_size] at oldSize
  dsimp only at copy old frame oldSize
  refine ⟨entries, _, described, ?_, ?_, old, ?_, ?_⟩
  · rw [totalSize_append, totalSize_cons, totalSize_cons, totalSize_nil, kextsSegment_size,
      required, total, add_zero, add_assoc]
  · have written : (allBytes entries ++ (kextsSegment collection).bytes).length =
        totalSize entries + segment64Size := by
      rw [length_append, length_allBytes, ← LoadCommand.size, kextsSegment_size]
    rw [allBytes_append, allBytes_cons, allBytes_cons, allBytes_nil, append_nil,
      ← append_assoc, holds_append, written, ← add_assoc]
    refine ⟨both.holds.congr fun place lower upper => frame place (Or.inr ?_) (Or.inl ?_), copy⟩
    · rw [stands.infoSegment]
      omega
    · rw [written] at upper
      omega
  · have written : (allBytes entries ++ (kextsSegment collection).bytes).length =
        totalSize entries + segment64Size := by
      rw [length_append, length_allBytes, ← LoadCommand.size, kextsSegment_size]
    intro place outer outside
    rw [frame place outer (by omega), both.frame place (by rw [written]; omega)]
  · rw [internalKcWriteCommandHeaders, ran]
    dsimp only
    rw [addKextsSegment_eq (by dsimp only; omega) (by dsimp only; omega)]
    dsimp only
    rw [coveringSize, addInfoSegment_eq oldSize (by dsimp only; omega) (by dsimp only; omega)]
    dsimp only
    congr 1
    · omega
    · omega

theorem internalKcWriteCommandHeaders_rebuilt :
    ∃ entries, Rebuilt collection front info
      (renamed info sectionOffset (le_trans (by decide) stands.behind)) back entries
      (internalKcWriteCommandHeaders collection) := by
  obtain ⟨entries, last, described, computed, written, old, frame, outcome⟩ :=
    internalKcWriteCommandHeaders_spec stands room
  have sizes := stands.commandsSize
  rw [totalSize_append, totalSize_cons] at sizes
  have parts := stands.holds
  rw [allBytes_append, holds_append, length_allBytes, holds_cons] at parts
  obtain ⟨ahead, -, behind⟩ := parts
  -- The old commands, with the renamed one among them.
  have kept : Holds last collection.commands (allBytes
      (front ++ renamed info sectionOffset (le_trans (by decide) stands.behind) :: back)) := by
    rw [allBytes_append, holds_append, length_allBytes, holds_cons, renamed_size]
    refine ⟨ahead.congr fun place _ upper => frame place (Or.inl ?_) (Or.inl ?_), ?_,
      behind.congr fun place lower upper => frame place (Or.inr ?_) (Or.inl ?_)⟩
    · rw [length_allBytes] at upper
      rwa [stands.infoSegment]
    · rw [length_allBytes] at upper
      omega
    · rwa [stands.infoSegment] at old
    · rwa [stands.infoSegment]
    · rw [length_allBytes] at upper
      omega
  have oldSize : totalSize (front ++
      renamed info sectionOffset (le_trans (by decide) stands.behind) :: back) =
        collection.commandsSize := by
    rw [totalSize_append, totalSize_cons, renamed_size, sizes]
  have whole : Holds last collection.commands (allBytes (rebuiltCommands collection front info
      (renamed info sectionOffset (le_trans (by decide) stands.behind)) back entries)) := by
    rw [rebuiltCommands, allBytes_append, holds_append, length_allBytes, oldSize]
    exact ⟨kept, written⟩
  have numbers : collection.numCommands + entries.length + 2 =
      (rebuiltCommands collection front info
        (renamed info sectionOffset (le_trans (by decide) stands.behind)) back entries).length := by
    rw [stands.numCommands, rebuiltCommands]
    simp only [length_append, length_cons, length_nil]
    omega
  have total : collection.commandsSize + collection.requiredSize =
      totalSize (rebuiltCommands collection front info
        (renamed info sectionOffset (le_trans (by decide) stands.behind)) back entries) := by
    rw [rebuiltCommands, totalSize_append, oldSize, computed]
  rw [outcome]
  refine ⟨entries, described, entries_aligned described,
    fun ordered => kextsSegment_covers collection ordered stands.lastAddress, computed, numbers,
    total, whole, ?_, frame, ?_, rfl⟩
  · dsimp only
    rw [numbers]
    exact walk_eq whole
  · rw [totalSize_append, totalSize_cons, totalSize_cons, totalSize_nil, kextsSegment_size] at computed
    dsimp only
    omega

end

end Writes

section Results

/-- Where there is room without a merge, `KcRebuildMachHeader` writes the commands it computed
the size of, within `__TEXT`. -/
theorem kcRebuildMachHeader_rebuilt (collection : Collection) (front : List LoadCommand)
    (info : LoadCommand) (back : List LoadCommand) (sectionOffset textSegment : Nat)
    (stands : Stands collection front info back sectionOffset)
    (first : readField .mach64 collection.memory textSegment .fileOffset = 0)
    (same : readField .mach64 collection.memory textSegment .fileSize =
      readField .mach64 collection.memory textSegment .size)
    (inFile : readField .mach64 collection.memory textSegment .fileSize < u32)
    (room : collection.currentSize + collection.requiredSize ≤
      readField .mach64 collection.memory textSegment .fileSize) :
    ∃ entries rebuilt, kcRebuildMachHeader (some textSegment) collection = (.ok (), rebuilt) ∧
      Rebuilt collection front info
        (renamed info sectionOffset (le_trans (by decide) stands.behind)) back entries rebuilt ∧
      collection.commands + rebuilt.commandsSize ≤
        collection.prelinked + readField .mach64 collection.memory textSegment .fileSize := by
  have size : collection.currentSize = collection.commandsSize + header64Size := rfl
  obtain ⟨entries, rebuilt⟩ := internalKcWriteCommandHeaders_rebuilt stands (by omega)
  refine ⟨entries, _, ?_, rebuilt, ?_⟩
  · have accepted : ¬(readField .mach64 collection.memory textSegment .fileOffset ≠ 0 ∨
        readField .mach64 collection.memory textSegment .fileSize ≠
          readField .mach64 collection.memory textSegment .size ∨
        readField .mach64 collection.memory textSegment .fileSize < collection.currentSize) := by
      rintro (wrong | wrong | wrong)
      · exact wrong first
      · exact wrong same
      · omega
    unfold kcRebuildMachHeader
    dsimp only
    rw [if_neg accepted, if_neg (not_lt.mpr room)]
    dsimp only
    rw [if_neg (by simp), if_neg (not_lt.mpr room)]
  · have total := rebuilt.commandsSize
    have computed := rebuilt.computed
    have sizes := stands.commandsSize
    have commands : collection.commands = collection.prelinked + header64Size := rfl
    rw [rebuiltCommands, totalSize_append, computed, totalSize_append, totalSize_cons,
      renamed_size] at total
    rw [totalSize_append, totalSize_cons] at sizes
    omega

set_option maxRecDepth 4000

def textCommand : LoadCommand :=
  .make 25 ([95, 95, 84, 69, 88, 84] ++ replicate 10 0 ++ bytesOf 8 0x1000 ++
    bytesOf 8 0x1000 ++ bytesOf 8 0 ++ bytesOf 8 0x1000 ++ replicate 16 0) (by decide)

def infoCommand : LoadCommand :=
  .make 25 ([95, 95, 80, 82, 69, 76, 73, 78, 75, 95, 73, 78, 70, 79] ++ replicate 130 0)
    (by decide)

def oneKext : Collection where
  memory := memoryOf 32 (allBytes [textCommand, infoCommand])
  prelinked := 0
  numCommands := 2
  commandsSize := 224
  injectedKexts := [⟨⟨[97, 46, 98], by simp, by decide⟩, 0x9000, 0x8000⟩]
  prelinkedInfoSegment := 104
  prelinkedInfoSection := 176
  kextsVmAddress := 0x9000
  kextsFileOffset := 0x8000
  prelinkedLastAddress := 0xA000
  prelinkedSize := 0x9000

theorem oneKext_stands : Stands oneKext [textCommand] infoCommand [] 72 where
  numCommands := rfl
  commandsSize := by decide
  holds := holds_memoryOf 32 _
  infoSegment := by decide
  infoSection := rfl
  behind := by decide
  inside := by decide
  lastAddress := by decide

theorem kcRebuildMachHeader_rebuilt_oneKext :
    ∃ entries rebuilt, kcRebuildMachHeader (some 32) oneKext = (.ok (), rebuilt) ∧
      Rebuilt oneKext [textCommand] infoCommand
        (renamed infoCommand 72 (le_trans (by decide) oneKext_stands.behind)) [] entries
        rebuilt ∧
      oneKext.commands + rebuilt.commandsSize ≤
        oneKext.prelinked + readField .mach64 oneKext.memory 32 .fileSize :=
  kcRebuildMachHeader_rebuilt oneKext [textCommand] infoCommand [] 72 32 oneKext_stands
    (by decide) (by decide) (by decide) (by decide)

end Results

end OpenCore.CollectionRebuild
