import OpenCore.Base
import OpenCore.ByteBuffer

/-!
Loading the driver that a jump-start block describes. The loop runs while extents or
bytes are left, so it goes past the last extent when they do not fill the rounded size.
-/

namespace OpenCore.ApfsDriver

open Base ByteBuffer List

section Code

inductive Status where
  | securityViolation
  | device (code : Nat)
  deriving DecidableEq

inductive Device where
  | own
  | fusionSibling
  deriving DecidableEq

structure Extent where
  startPhysicalAddr : Nat
  blockCount : Nat

structure JumpStart where
  efiFileLen : Nat
  recordExtents : List Extent
  word : efiFileLen < u32

structure PrivateData where
  apfsBlockSize : Nat
  lbaMultiplier : Nat
  isFusion : Bool
  fusionMask : Nat
  isFusionMaster : Bool
  positive : 0 < apfsBlockSize
  word : apfsBlockSize < u32

structure Disks where
  readBlocks : Device → Nat → Nat → Except Status Bytes
  fills : ∀ device lba size bytes, readBlocks device lba size = .ok bytes → bytes.length = size

def internalApfsTranslateBlock (data : PrivateData) (block : Nat) : Device × Nat :=
  if !data.isFusion then (.own, block * data.lbaMultiplier % u64)
  else
    let isFusionMaster := block &&& data.fusionMask == 0
    let block := if isFusionMaster then block else block &&& (u64 - 1 - data.fusionMask)
    (if isFusionMaster == data.isFusionMaster then .own else .fusionSibling,
      block * data.lbaMultiplier % u64)

structure Load where
  efiFile : Bytes
  chunkPtr : Nat
  efiFileSize : Nat
  writes : List (Nat × Nat)

inductive Result where
  | success (driverSize : Nat) (driverBuffer : Bytes)
  | failed (status : Status)
  /-- A record at `NumExtents` is read. -/
  | outside
  deriving DecidableEq

def readExtent (disks : Disks) (data : PrivateData) (extent : Extent) (size : Nat) :
    Except Status Bytes :=
  let (device, lba) := internalApfsTranslateBlock data extent.startPhysicalAddr
  disks.readBlocks device lba size

def Load.put (load : Load) (chunk : Bytes) : Load where
  efiFile := overlay load.efiFile load.chunkPtr chunk
  chunkPtr := load.chunkPtr + chunk.length
  efiFileSize := load.efiFileSize - chunk.length
  writes := (load.chunkPtr, chunk.length) :: load.writes

def readLoop (disks : Disks) (data : PrivateData) : List Extent → Load → Option Result × Load
  | [], load => (if load.efiFileSize ≠ 0 then some .outside else none, load)
  | extent :: rest, load =>
    if extent.blockCount > u64 - 1 then (some (.failed .securityViolation), load)
    else match baseOverflowMul u64 extent.blockCount data.apfsBlockSize with
      | none => (some (.failed .securityViolation), load)
      | some chunkSize =>
        if chunkSize > load.efiFileSize then (some (.failed .securityViolation), load)
        else match readExtent disks data extent chunkSize with
          | .error status => (some (.failed status), load)
          | .ok chunk => readLoop disks data rest (load.put chunk)

def finish (orgEfiFileSize efiFileLen : Nat) (load : Load) : Result × List (Nat × Nat) :=
  if orgEfiFileSize ≠ efiFileLen then
    let zeros := replicate (orgEfiFileSize - efiFileLen) (0 : UInt8)
    (.success efiFileLen (overlay load.efiFile efiFileLen zeros),
      (efiFileLen, zeros.length) :: load.writes)
  else (.success efiFileLen load.efiFile, load.writes)

def apfsReadDriver (disks : Disks) (data : PrivateData) (jumpStart : JumpStart) :
    Result × Nat × List (Nat × Nat) :=
  match baseOverflowMul u64 (jumpStart.efiFileLen / data.apfsBlockSize + 1)
      data.apfsBlockSize with
  | none => (.failed .securityViolation, 0, [])
  | some size =>
    match readLoop disks data jumpStart.recordExtents ⟨replicate size 0, 0, size, []⟩ with
    | (some result, load) => (result, size, load.writes)
    | (none, load) =>
      let (result, writes) := finish size jumpStart.efiFileLen load
      (result, size, writes)

end Code

section Loop

variable (disks : Disks) (data : PrivateData)

def byteCount (extents : List Extent) : Nat :=
  (extents.map Extent.blockCount).sum * data.apfsBlockSize

def Stopped (extents : List Extent) (size : Nat) : Prop :=
  ∃ before extent after, extents = before ++ extent :: after ∧
    (u64 ≤ byteCount data [extent] ∨ size < byteCount data (before ++ [extent]) ∨
      ∃ status, readExtent disks data extent (byteCount data [extent]) = .error status)

def Holds (extents : List Extent) (chunks : List Bytes) : Prop :=
  Forall₂ (fun extent chunk =>
    readExtent disks data extent (byteCount data [extent]) = .ok chunk) extents chunks

variable {disks data}

theorem byteCount_cons (extent : Extent) (rest : List Extent) :
    byteCount data (extent :: rest) = byteCount data [extent] + byteCount data rest := by
  simp [byteCount, add_mul]

variable {size : Nat}

theorem readExtent_length {extent : Extent} {chunk : Bytes}
    (read : readExtent disks data extent size = .ok chunk) : chunk.length = size :=
  disks.fills _ _ _ _ read

theorem not_stopped_nil (size : Nat) : ¬ Stopped disks data [] size := by
  rintro ⟨before, extent, after, split, -⟩
  simp at split

theorem stopped_cons {extent : Extent} {rest : List Extent}
    (small : byteCount data [extent] < u64) (fits : byteCount data [extent] ≤ size)
    {chunk : Bytes} (read : readExtent disks data extent (byteCount data [extent]) = .ok chunk) :
    Stopped disks data (extent :: rest) size ↔
      Stopped disks data rest (size - byteCount data [extent]) := by
  constructor
  · rintro ⟨before, stop, after, split, reason⟩
    cases before with
    | nil =>
      obtain ⟨rfl, rfl⟩ := cons.inj split
      rcases reason with large | beyond | ⟨status, refused⟩
      · omega
      · rw [nil_append] at beyond
        omega
      · rw [read] at refused
        cases refused
    | cons first before =>
      obtain ⟨rfl, rfl⟩ := cons.inj split
      rw [cons_append, byteCount_cons extent (before ++ [stop])] at reason
      exact ⟨before, stop, after, rfl, reason.imp_right (Or.imp_left (by omega))⟩
  · rintro ⟨before, stop, after, rfl, reason⟩
    refine ⟨extent :: before, stop, after, rfl, reason.imp_right (Or.imp_left ?_)⟩
    rw [cons_append, byteCount_cons extent (before ++ [stop])]
    omega

/-- What the loop does: it stops at an extent, or has read all of them. -/
theorem readLoop_cases (extents : List Extent) (load : Load) :
    (Stopped disks data extents load.efiFileSize ∧
      ∃ status, (readLoop disks data extents load).1 = some (.failed status)) ∨
    (¬ Stopped disks data extents load.efiFileSize ∧ ∃ chunks, Holds disks data extents chunks ∧
        readLoop disks data extents load =
          (if byteCount data extents < load.efiFileSize then some .outside else none,
            chunks.foldl Load.put load)) := by
  induction extents generalizing load with
  | nil =>
    refine Or.inr ⟨not_stopped_nil _, [], .nil, ?_⟩
    rw [readLoop, foldl_nil]
    simp only [byteCount, map_nil, sum_nil, zero_mul, Nat.pos_iff_ne_zero]
  | cons extent rest ih =>
    have count : byteCount data [extent] = extent.blockCount * data.apfsBlockSize := by
      simp [byteCount]
    have grows : extent.blockCount ≤ byteCount data [extent] := by
      rw [count]
      exact Nat.le_mul_of_pos_right _ data.positive
    have full : 0 < u64 := by decide
    rw [readLoop, baseOverflowMul, ← count]
    by_cases large : u64 ≤ byteCount data [extent]
    · refine Or.inl ⟨⟨[], extent, rest, rfl, Or.inl large⟩, .securityViolation, ?_⟩
      rw [if_neg (by omega : ¬ byteCount data [extent] < u64)]
      split <;> rfl
    by_cases beyond : load.efiFileSize < byteCount data [extent]
    · refine Or.inl ⟨⟨[], extent, rest, rfl, Or.inr (Or.inl beyond)⟩, .securityViolation, ?_⟩
      rw [if_neg (by omega), if_pos (by omega)]
      simp only [gt_iff_lt, if_pos beyond]
    rw [if_neg (by omega), if_pos (by omega)]
    simp only [gt_iff_lt, if_neg beyond]
    cases read : readExtent disks data extent (byteCount data [extent]) with
    | error status =>
      exact Or.inl ⟨⟨[], extent, rest, rfl, Or.inr (Or.inr ⟨status, read⟩)⟩, status, rfl⟩
    | ok chunk =>
      have cut : (load.put chunk).efiFileSize = load.efiFileSize - byteCount data [extent] := by
        rw [Load.put, readExtent_length read]
      rw [stopped_cons (by omega) (by omega) read, ← cut]
      refine (ih (load.put chunk)).imp_right ?_
      rintro ⟨goes, chunks, holds, ends⟩
      refine ⟨goes, chunk :: chunks, .cons read holds, ?_⟩
      rw [byteCount_cons extent rest, foldl_cons]
      simp only [ends, cut, Nat.lt_sub_iff_add_lt']

variable {extents : List Extent}

theorem byteCount_le
    (goes : ¬ Stopped disks data extents size) : byteCount data extents ≤ size := by
  rcases eq_nil_or_concat extents with rfl | ⟨before, extent, rfl⟩
  · simp [byteCount]
  · rw [concat_eq_append] at goes ⊢
    exact Nat.le_of_not_lt fun beyond =>
      goes ⟨before, extent, [], rfl, Or.inr (Or.inl beyond)⟩

theorem holds_length {chunks : List Bytes} (holds : Holds disks data extents chunks) :
    chunks.flatten.length = byteCount data extents := by
  induction holds with
  | nil => simp [byteCount]
  | cons read _ ih =>
    rw [flatten_cons, length_append, ih, readExtent_length read, ← byteCount_cons]

end Loop

section Writes

structure Loaded (size : Nat) (bytes : Bytes) (load : Load) : Prop where
  length : load.efiFile.length = size
  ptr : load.chunkPtr = bytes.length
  left : load.chunkPtr + load.efiFileSize = size
  front : load.efiFile.take load.chunkPtr = bytes
  inside : ∀ write ∈ load.writes, write.1 + write.2 ≤ size

variable {load : Load} {size : Nat}

theorem put_loaded {bytes chunk : Bytes}
    (loaded : Loaded size bytes load) (fits : chunk.length ≤ load.efiFileSize) :
    Loaded size (bytes ++ chunk) (load.put chunk) := by
  have left := loaded.left
  refine ⟨(overlay_length ..).trans loaded.length, ?_, ?_, ?_, ?_⟩
  · rw [Load.put, length_append, loaded.ptr]
  · simp only [Load.put]
    omega
  · rw [Load.put, overlay_take (by rw [loaded.length]; omega), loaded.front]
  · rintro write (_ | _)
    · simp only
      omega
    · exact loaded.inside _ ‹_›

variable {bytes : Bytes}

theorem puts_loaded (chunks : List Bytes)
    (loaded : Loaded size bytes load) (fits : chunks.flatten.length ≤ load.efiFileSize) :
    Loaded size (bytes ++ chunks.flatten) (chunks.foldl Load.put load) := by
  induction chunks generalizing bytes load with
  | nil => rwa [flatten_nil, append_nil]
  | cons chunk rest ih =>
    rw [flatten_cons, length_append] at fits
    rw [flatten_cons, ← append_assoc]
    refine ih (put_loaded loaded (by omega)) ?_
    simp only [Load.put]
    omega

theorem readLoop_loaded (disks : Disks) (data : PrivateData)
    (extents : List Extent) (loaded : Loaded size bytes load) :
    ∃ more, Loaded size more (readLoop disks data extents load).2 := by
  induction extents generalizing bytes load with
  | nil => exact ⟨bytes, loaded⟩
  | cons extent rest ih =>
    rw [readLoop]
    split
    · exact ⟨bytes, loaded⟩
    split
    · exact ⟨bytes, loaded⟩
    split
    · exact ⟨bytes, loaded⟩
    split
    · exact ⟨bytes, loaded⟩
    · next chunkSize _ fits _ chunk read =>
      exact ih (put_loaded loaded (by rw [readExtent_length read]; omega))

theorem finish_loaded {size length : Nat}
    (loaded : Loaded size bytes load) (left : load.efiFileSize = 0) (fits : length ≤ size) :
    (finish size length load).1 =
        .success length (bytes.take length ++ replicate (size - length) 0) ∧
      ∀ write ∈ (finish size length load).2, write.1 + write.2 ≤ size := by
  have whole : load.efiFile = bytes := by
    rw [← loaded.front, take_of_length_le]
    have ends := loaded.left
    have same := loaded.length
    omega
  have long : bytes.length = size := whole ▸ loaded.length
  rw [finish]
  split
  · have stretch : length + (replicate (size - length) (0 : UInt8)).length = size := by
      rw [length_replicate]
      omega
    refine ⟨?_, ?_⟩
    · rw [whole, ← overlay_take (by omega), stretch,
        take_of_length_le (by rw [overlay_length, long])]
    · rintro write (_ | _)
      · exact stretch.le
      · exact loaded.inside _ ‹_›
  · next same =>
    have same : size = length := not_not.mp same
    refine ⟨?_, loaded.inside⟩
    rw [whole, same, Nat.sub_self, replicate_zero, append_nil, take_of_length_le (by omega)]

end Writes

section Driver

variable (disks : Disks) (data : PrivateData) (jumpStart : JumpStart)

/-- `EfiFileLen` rounded up, with a block more for a multiple of the block size. -/
def orgEfiFileSize : Nat :=
  (jumpStart.efiFileLen / data.apfsBlockSize + 1) * data.apfsBlockSize

structure Correct (outcome : Result × Nat × List (Nat × Nat)) : Prop where
  bounded : outcome.1 ≠ .outside
  inside : ∀ write ∈ outcome.2.2, write.1 + write.2 ≤ outcome.2.1
  driver : ∀ size buffer, outcome.1 = .success size buffer → size = jumpStart.efiFileLen ∧
    ∃ chunks, Holds disks data jumpStart.recordExtents chunks ∧
      buffer = chunks.flatten.take jumpStart.efiFileLen ++
        replicate (outcome.2.1 - jumpStart.efiFileLen) 0
  short : byteCount data jumpStart.recordExtents < jumpStart.efiFileLen →
    ∃ status, outcome.1 = .failed status

theorem efiFileLen_lt : jumpStart.efiFileLen < orgEfiFileSize data jumpStart := by
  rw [orgEfiFileSize, mul_comm]
  exact Nat.lt_mul_div_succ _ data.positive

theorem orgEfiFileSize_lt : orgEfiFileSize data jumpStart < u64 := by
  have rounds : jumpStart.efiFileLen / data.apfsBlockSize * data.apfsBlockSize ≤
      jumpStart.efiFileLen := Nat.div_mul_le_self ..
  have length := jumpStart.word
  have block := data.word
  have room : u32 + u32 < u64 := by decide
  rw [orgEfiFileSize, add_mul]
  omega

theorem apfsReadDriver_eq :
    apfsReadDriver disks data jumpStart = let size := orgEfiFileSize data jumpStart
      match readLoop disks data jumpStart.recordExtents ⟨replicate size 0, 0, size, []⟩ with
      | (some result, load) => (result, size, load.writes)
      | (none, load) =>
        let (result, writes) := finish size jumpStart.efiFileLen load
        (result, size, writes) := by
  rw [apfsReadDriver, baseOverflowMul, ← orgEfiFileSize, if_pos (orgEfiFileSize_lt data jumpStart)]

theorem fresh_loaded (size : Nat) : Loaded size [] ⟨replicate size 0, 0, size, []⟩ :=
  ⟨length_replicate, rfl, zero_add size, rfl, fun _ none => absurd none not_mem_nil⟩

/-- The driver is loaded as it should exactly when an extent is refused or cannot be
read, or the extents fill the rounded size. -/
theorem apfsReadDriver_correct_iff :
    Correct disks data jumpStart (apfsReadDriver disks data jumpStart) ↔
      Stopped disks data jumpStart.recordExtents (orgEfiFileSize data jumpStart) ∨
      byteCount data jumpStart.recordExtents = orgEfiFileSize data jumpStart := by
  have begun := fresh_loaded (orgEfiFileSize data jumpStart)
  obtain ⟨more, loaded⟩ := readLoop_loaded disks data jumpStart.recordExtents begun
  have room := efiFileLen_lt data jumpStart
  rw [apfsReadDriver_eq]
  dsimp only
  generalize orgEfiFileSize data jumpStart = size at *
  rcases @readLoop_cases disks data jumpStart.recordExtents
    ⟨replicate size 0, 0, size, []⟩ with ⟨stopped, status, ends⟩ | ⟨goes, chunks, holds, ends⟩
  · refine iff_of_true ?_ (Or.inl stopped)
    generalize readLoop disks data jumpStart.recordExtents
      ⟨replicate size 0, 0, size, []⟩ = run at ends loaded ⊢
    obtain ⟨result, load⟩ := run
    obtain rfl : result = some (.failed status) := ends
    refine ⟨by simp, loaded.inside, by simp, fun _ => ⟨status, rfl⟩⟩
  · have fits := byteCount_le goes
    rw [ends]
    by_cases missing : byteCount data jumpStart.recordExtents < size
    · rw [if_pos missing]
      refine iff_of_false (fun correct => correct.bounded rfl) ?_
      rintro (stopped | same)
      · exact goes stopped
      · omega
    · rw [if_neg missing]
      have same := le_antisymm fits (Nat.le_of_not_lt missing)
      have final := puts_loaded chunks begun ((holds_length holds).trans same).le
      have left : (chunks.foldl Load.put ⟨replicate size 0, 0, size, []⟩).efiFileSize = 0 := by
        have pointer := final.ptr
        have total := final.left
        rw [nil_append, holds_length holds] at pointer
        omega
      obtain ⟨success, inside⟩ := finish_loaded final left room.le
      refine iff_of_true ⟨?_, inside, ?_, ?_⟩ (Or.inr same)
      · simp only [success]
        exact nofun
      · intro length buffer equal
        obtain ⟨rfl, rfl⟩ := Result.success.inj (success.symm.trans equal)
        exact ⟨rfl, chunks, holds, rfl⟩
      · intro short
        omega

def plainData : PrivateData := ⟨4096, 8, false, 0, true, by decide, by decide⟩

def zeroDisks : Disks :=
  ⟨fun _ _ size => .ok (replicate size 0), by
    rintro _ _ _ _ ⟨⟩
    exact length_replicate⟩

def oneBlock : JumpStart := ⟨4096, [⟨16, 1⟩], by decide⟩

theorem oneBlock_outside :
    ¬ ∀ disks data jumpStart,
      Correct disks data jumpStart (apfsReadDriver disks data jumpStart) := by
  intro always
  refine (always zeroDisks plainData oneBlock).bounded ?_
  rw [apfsReadDriver_eq]
  simp only [oneBlock, orgEfiFileSize, plainData, readLoop, baseOverflowMul, readExtent,
    zeroDisks, Load.put, length_replicate, u64]
  rfl

end Driver

end OpenCore.ApfsDriver
