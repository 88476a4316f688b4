import OpenCore.CollectionHeader
import OpenCore.MergedSegments

/-!
The commands that are written to a kernel collection's header, byte for byte, and that they
take the room that was computed for them. Each is written behind the one before, so that
what is there in the end is their concatenation behind the commands of the collection.
-/

namespace OpenCore.CollectionCommands

open Base AddressSpace PlacedBytes MachoHeader LoadCommands MergeSegments MergedSegments List
open CollectionHeader

section Entries

def entrySize (kext : InjectedKext) : Nat := align8 (filesetEntrySize + kext.stringSize)

theorem le_align8 (value : Nat) : value ≤ align8 value := Nat.le_add_right _ _

theorem align8_mod (value : Nat) : align8 value % 8 = 0 := by
  rw [align8]
  omega

/-- What a fileset command has behind its size: the addresses, where its string begins, and
the string with its terminator and zeros up to the next 8 bytes. -/
def entryPayload (kext : InjectedKext) : List UInt8 :=
  bytesOf 8 kext.virtualBase ++ bytesOf 8 kext.headerOffset ++ bytesOf 4 filesetEntrySize ++
    bytesOf 4 0 ++ (kext.identifier.chars ++ [0]) ++
    replicate (entrySize kext - filesetEntrySize - kext.stringSize) 0

theorem length_entryPayload (kext : InjectedKext) :
    8 + (entryPayload kext).length = entrySize kext := by
  have enough := le_align8 (filesetEntrySize + kext.stringSize)
  have size : kext.stringSize = kext.identifier.chars.length + 1 := rfl
  rw [entrySize, entryPayload]
  simp only [length_append, length_bytesOf, length_singleton, length_replicate, ← size, entrySize]
  simp only [filesetEntrySize] at enough ⊢
  omega

def filesetEntry (kext : InjectedKext) (small : entrySize kext < u32) : LoadCommand :=
  .make machLoadCommandFilesetEntry (entryPayload kext) (by rwa [length_entryPayload])

@[simp] theorem filesetEntry_size (kext : InjectedKext) (small : entrySize kext < u32) :
    (filesetEntry kext small).size = entrySize kext :=
  (LoadCommand.make_size _ _ _).trans (length_entryPayload kext)

theorem writeFilesetEntry_wrote (memory : Memory) (command : Nat) (kext : InjectedKext)
    (small : entrySize kext < u32) :
    Wrote memory command (filesetEntry kext small).bytes (writeFilesetEntry memory command kext) := by
  have modulus : align8 (filesetEntrySize + kext.stringSize) % u32 = entrySize kext :=
    Nat.mod_eq_of_lt small
  have wrote : Wrote memory command
      (bytesOf 4 machLoadCommandFilesetEntry ++ bytesOf 4 (entrySize kext) ++
        bytesOf 8 kext.virtualBase ++ bytesOf 8 kext.headerOffset ++ bytesOf 4 filesetEntrySize ++
        bytesOf 4 0 ++ (kext.identifier.chars ++ [0])) _ :=
    ((((((wrote_store memory 4 command machLoadCommandFilesetEntry).append
      (wrote_store _ 4 _ (entrySize kext))).append
      (wrote_store _ 8 _ kext.virtualBase)).append
      (wrote_store _ 8 _ kext.headerOffset)).append
      (wrote_store _ 4 _ filesetEntrySize)).append
      (wrote_store _ 4 _ 0)).append
      (wrote_writeBytes _ _ (kext.identifier.chars ++ [0]))
  simp only [length_append, length_bytesOf, Nat.reduceAdd] at wrote
  unfold writeFilesetEntry
  dsimp only
  rw [modulus]
  generalize writeBytes _ (command + 32) _ = written at wrote ⊢
  have parts := wrote.holds
  simp only [holds_append, length_append, length_bytesOf, Nat.reduceAdd] at parts
  obtain ⟨⟨⟨⟨⟨⟨-, size⟩, -⟩, -⟩, offset⟩, -⟩, -⟩ := parts
  have sizeRead : commandSize written command = entrySize kext := by
    have loaded := size.load (le_of_eq (by rw [zero_add, length_bytesOf]))
    rw [field_bytesOf, add_zero] at loaded
    exact loaded.trans modulus
  have offsetRead : load written 4 (command + 24) = filesetEntrySize := by
    have loaded := offset.load (le_of_eq (by rw [zero_add, length_bytesOf]))
    rw [field_bytesOf, add_zero] at loaded
    exact loaded
  have behind : command + 32 + kext.stringSize = command +
      (bytesOf 4 machLoadCommandFilesetEntry ++ bytesOf 4 (entrySize kext) ++
        bytesOf 8 kext.virtualBase ++ bytesOf 8 kext.headerOffset ++ bytesOf 4 filesetEntrySize ++
        bytesOf 4 0 ++ (kext.identifier.chars ++ [0])).length := by
    simp only [length_append, length_bytesOf, length_singleton]
    exact add_assoc _ _ _
  rw [sizeRead, offsetRead, behind]
  have whole := wrote.append (wrote_zeroMem written _
    (entrySize kext - filesetEntrySize - kext.stringSize))
  have same : (filesetEntry kext small).bytes = bytesOf 4 machLoadCommandFilesetEntry ++
      bytesOf 4 (entrySize kext) ++ bytesOf 8 kext.virtualBase ++ bytesOf 8 kext.headerOffset ++
      bytesOf 4 filesetEntrySize ++ bytesOf 4 0 ++ (kext.identifier.chars ++ [0]) ++
      replicate (entrySize kext - filesetEntrySize - kext.stringSize) 0 := by
    rw [filesetEntry, LoadCommand.make_bytes, length_entryPayload, entryPayload]
    simp only [append_assoc]
  rw [same]
  exact whole

theorem writeFilesetEntry_size (memory : Memory) (command : Nat) (kext : InjectedKext)
    (small : entrySize kext < u32) :
    commandSize (writeFilesetEntry memory command kext) command = entrySize kext := by
  have wrote := writeFilesetEntry_wrote memory command kext small
  rw [commandSize_eq wrote.holds, filesetEntry_size]

def Describes (kext : InjectedKext) (entry : LoadCommand) : Prop :=
  ∃ small : entrySize kext < u32, entry = filesetEntry kext small

theorem writeFilesetEntries_wrote (kexts : List InjectedKext) (command : Nat)
    (collection : Collection) (numbers : collection.numCommands + kexts.length < u32)
    (sizes : collection.commandsSize + internalKcGetKextFilesetSize kexts < u32) :
    ∃ entries memory, Forall₂ Describes kexts entries ∧
      totalSize entries = internalKcGetKextFilesetSize kexts ∧
      Wrote collection.memory command (allBytes entries) memory ∧
      writeFilesetEntries kexts command collection = (command + totalSize entries, { collection with
            memory := memory
            numCommands := collection.numCommands + kexts.length
            commandsSize := collection.commandsSize + totalSize entries }) := by
  induction kexts generalizing command collection with
  | nil => exact ⟨[], collection.memory, .nil, rfl, Wrote.start _ _, rfl⟩
  | cons kext rest ih =>
    rw [internalKcGetKextFilesetSize, ← entrySize] at sizes
    rw [length_cons] at numbers
    have small : entrySize kext < u32 := by omega
    have size := writeFilesetEntry_size collection.memory command kext small
    have wrote := writeFilesetEntry_wrote collection.memory command kext small
    obtain ⟨entries, memory, described, total, others, ran⟩ := ih (command + entrySize kext)
      { collection with
        memory := writeFilesetEntry collection.memory command kext
        numCommands := collection.numCommands + 1
        commandsSize := collection.commandsSize + entrySize kext }
      (by dsimp only; omega) (by dsimp only; omega)
    refine ⟨filesetEntry kext small :: entries, memory, .cons ⟨small, rfl⟩ described, ?_, ?_, ?_⟩
    · rw [totalSize_cons, filesetEntry_size, total]
      rfl
    · rw [allBytes_cons]
      apply wrote.append
      rwa [← LoadCommand.size, filesetEntry_size]
    · rw [writeFilesetEntries, size, Collection.counted]
      dsimp only
      rw [Nat.mod_eq_of_lt (by omega), Nat.mod_eq_of_lt (by omega), ran, totalSize_cons,
        filesetEntry_size, length_cons]
      rw [add_assoc command, add_assoc collection.numCommands, add_comm 1,
        add_assoc collection.commandsSize]

end Entries

section Segments

def kextsPayload (collection : Collection) : List UInt8 :=
  kcMoscowSegment ++ replicate (16 - kcMoscowSegment.length) 0 ++
    bytesOf 8 collection.kextsVmAddress ++
    bytesOf 8 (collection.prelinkedLastAddress + uintX .mach64 - collection.kextsVmAddress) ++
    bytesOf 8 collection.kextsFileOffset ++
    bytesOf 8 ((collection.prelinkedSize + u32 - collection.kextsFileOffset) % u32) ++
    bytesOf 4 allProtections ++ bytesOf 4 allProtections ++ bytesOf 4 0 ++ bytesOf 4 0

theorem length_kextsPayload (collection : Collection) :
    8 + (kextsPayload collection).length = segment64Size := by
  simp only [kextsPayload, length_append, length_bytesOf, length_replicate]
  decide

def kextsSegment (collection : Collection) : LoadCommand :=
  .make (machLoadCommandSegment .mach64) (kextsPayload collection)
    (by rw [length_kextsPayload]; decide)

@[simp] theorem kextsSegment_size (collection : Collection) :
    (kextsSegment collection).size = segment64Size :=
  (LoadCommand.make_size _ _ _).trans (length_kextsPayload collection)

theorem kextsSegment_bytes (collection : Collection) :
    (kextsSegment collection).bytes = bytesOf 4 (machLoadCommandSegment .mach64) ++
      bytesOf 4 segment64Size ++ kcMoscowSegment ++ replicate 4 0 ++
      bytesOf 8 collection.kextsVmAddress ++
      bytesOf 8 (collection.prelinkedLastAddress + uintX .mach64 - collection.kextsVmAddress) ++
      bytesOf 8 collection.kextsFileOffset ++
      bytesOf 8 ((collection.prelinkedSize + u32 - collection.kextsFileOffset) % u32) ++
      bytesOf 4 allProtections ++ bytesOf 4 allProtections ++ bytesOf 4 0 ++ bytesOf 4 0 := by
  have name : kcMoscowSegment.length = 12 := rfl
  rw [kextsSegment, LoadCommand.make_bytes, length_kextsPayload, kextsPayload, name]
  simp only [append_assoc]

theorem writeKextsSegment_wrote (command : Nat) (collection : Collection) :
    Wrote collection.memory command (kextsSegment collection).bytes
      (writeKextsSegment command collection) := by
  have wrote : Wrote collection.memory command _ _ :=
    (((((((((((wrote_store collection.memory 4 command (machLoadCommandSegment .mach64)).append
      (wrote_store _ 4 _ segment64Size)).append
      (wrote_writeBytes _ _ kcMoscowSegment)).append
      (wrote_zeroMem _ _ (16 - kcMoscowSegment.length))).append
      (wrote_store _ 8 _ collection.kextsVmAddress)).append
      (wrote_store _ 8 _
        (collection.prelinkedLastAddress + uintX .mach64 - collection.kextsVmAddress))).append
      (wrote_store _ 8 _ collection.kextsFileOffset)).append
      (wrote_store _ 8 _ ((collection.prelinkedSize + u32 - collection.kextsFileOffset) % u32))).append
      (wrote_store _ 4 _ allProtections)).append
      (wrote_store _ 4 _ allProtections)).append
      (wrote_store _ 4 _ 0)).append
      (wrote_store _ 4 _ 0)
  have name : kcMoscowSegment.length = 12 := rfl
  simp only [length_append, length_bytesOf, length_replicate, name, Nat.reduceAdd,
    Nat.reduceSub] at wrote
  have fields : ∀ (memory : Memory) (value : Nat),
      writeField .mach64 memory command .virtualAddress value = store memory 8 (command + 24) value ∧
      writeField .mach64 memory command .size value = store memory 8 (command + 32) value ∧
      writeField .mach64 memory command .fileOffset value = store memory 8 (command + 40) value ∧
      writeField .mach64 memory command .fileSize value = store memory 8 (command + 48) value ∧
      writeField .mach64 memory command .maximumProtection value =
        store memory 4 (command + 56) value ∧
      writeField .mach64 memory command .initialProtection value =
        store memory 4 (command + 60) value := fun _ _ => ⟨rfl, rfl, rfl, rfl, rfl, rfl⟩
  unfold writeKextsSegment
  dsimp only
  -- The offset in the file is written before the size in memory.
  rw [(fields _ _).1, (fields _ _).2.2.1, (fields _ _).2.1, (fields _ _).2.2.2.1,
    (fields _ _).2.2.2.2.1, (fields _ _).2.2.2.2.2, name, kextsSegment_bytes,
    store_comm (Or.inr (le_refl (command + 32 + 8)))]
  exact wrote

theorem kextsSegment_covers (collection : Collection)
    (ordered : collection.kextsVmAddress ≤ collection.prelinkedLastAddress)
    (bounded : collection.prelinkedLastAddress < u64) :
    get .mach64 .virtualAddress (kextsSegment collection) = collection.kextsVmAddress ∧
      get .mach64 .size (kextsSegment collection) =
        collection.prelinkedLastAddress - collection.kextsVmAddress := by
  have whole := holds_memoryOf 0 (kextsSegment collection).bytes
  have name : kcMoscowSegment.length = 12 := rfl
  have modulus : 256 ^ 8 = u64 := by decide
  have wide : uintX .mach64 = u64 := by decide
  have sized : SegmentSized .mach64 (kextsSegment collection) := by
    rw [SegmentSized, kextsSegment_size]
    decide
  rw [← readField_eq whole sized, ← readField_eq whole sized]
  generalize memoryOf 0 (kextsSegment collection).bytes = memory at whole ⊢
  rw [kextsSegment_bytes] at whole
  simp only [holds_append, length_append, length_bytesOf, length_replicate, name,
    Nat.reduceAdd, zero_add] at whole
  obtain ⟨⟨⟨⟨⟨⟨⟨⟨-, start⟩, size⟩, -⟩, -⟩, -⟩, -⟩, -⟩, -⟩ := whole
  have startRead := start.load (le_of_eq (by rw [zero_add, length_bytesOf]))
  have sizeRead := size.load (le_of_eq (by rw [zero_add, length_bytesOf]))
  rw [field_bytesOf, modulus, Nat.mod_eq_of_lt (lt_of_le_of_lt ordered bounded)] at startRead
  rw [field_bytesOf, modulus, wide, Nat.sub_add_comm ordered, Nat.add_mod_right,
    Nat.mod_eq_of_lt (lt_of_le_of_lt (Nat.sub_le _ _) bounded)] at sizeRead
  exact ⟨startRead, sizeRead⟩

end Segments

section Info

def renamed (info : LoadCommand) (sectionOffset : Nat) (behind : 8 ≤ sectionOffset) : LoadCommand where
  bytes := setBytes (setBytes (setBytes info.bytes 8 kremlinStart) (sectionOffset + 16) kremlinStart)
    sectionOffset kremlinStartSection
  minimal := by
    rw [length_setBytes, length_setBytes, length_setBytes]
    exact info.minimal
  sized := by
    have inside : 4 + 4 ≤ info.bytes.length := info.minimal
    rw [field_setBytes_apart (by simpa using inside) (by omega),
      field_setBytes_apart (by simpa using inside) (by omega),
      field_setBytes_apart inside (by omega), info.sized, length_setBytes, length_setBytes,
      length_setBytes]

@[simp] theorem renamed_size (info : LoadCommand) (sectionOffset : Nat) (behind : 8 ≤ sectionOffset) :
    (renamed info sectionOffset behind).size = info.size := by
  rw [LoadCommand.size, renamed, length_setBytes, length_setBytes, length_setBytes]
  rfl

variable {command sectionOffset : Nat} {collection : Collection} {info : LoadCommand}

/-- The copy is written behind the other commands, and the old segment is changed in place. -/
theorem writeInfoSegment_spec (behind : 72 ≤ sectionOffset)
    (inside : sectionOffset + 80 ≤ info.size)
    (holds : Holds collection.memory collection.prelinkedInfoSegment info.bytes)
    (apart : collection.prelinkedInfoSegment + info.size ≤ command)
    (placed : collection.prelinkedInfoSection = collection.prelinkedInfoSegment + sectionOffset) :
    Holds (writeInfoSegment command collection) command info.bytes ∧
      Holds (writeInfoSegment command collection) collection.prelinkedInfoSegment
        (renamed info sectionOffset (le_trans (by decide) behind)).bytes ∧ ∀ place,
        place < collection.prelinkedInfoSegment ∨
          collection.prelinkedInfoSegment + info.size ≤ place →
        place < command ∨ command + info.size ≤ place →
          writeInfoSegment command collection place = collection.memory place := by
  have size := commandSize_eq holds
  have copied := @wrote_copyMem _ command _ _ holds
  have kept : Holds (copyMem collection.memory command collection.prelinkedInfoSegment
      info.bytes.length) collection.prelinkedInfoSegment info.bytes :=
    holds.copy_frame (Or.inl apart)
  have outside : ∀ place, place < collection.prelinkedInfoSegment ∨
      collection.prelinkedInfoSegment + info.size ≤ place →
        writeInfoSegment command collection place =
          copyMem collection.memory command collection.prelinkedInfoSegment info.bytes.length place := by
    intro place outer
    have names : kremlinStart.length = 16 ∧ kremlinStartSection.length = 16 := ⟨rfl, rfl⟩
    rw [writeInfoSegment, size, placed, writeBytes, if_neg (by omega), writeBytes, if_neg (by omega), writeBytes,
      if_neg (by omega)]
    rfl
  refine ⟨copied.holds.congr fun place lower _ => outside place (Or.inr (by omega)), ?_, ?_⟩
  · rw [writeInfoSegment, size, placed, add_assoc _ sectionOffset]
    exact kept.write.write.write
  · intro place outer behind
    rw [outside place outer]
    exact copied.frame place behind

end Info

end OpenCore.CollectionCommands
