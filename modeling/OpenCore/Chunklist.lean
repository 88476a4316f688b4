import OpenCore.Base
import OpenCore.ByteSlices

/-!
The start of a chunklist. The table of the chunks is held against the end of the buffer
and the signature against that end too, not the table against the signature, which is
turned around in place. `UINTN` has 64 bits here, so every count fits.
-/

namespace OpenCore.Chunklist

open Base ByteBuffer ByteSlices

structure Buffer where
  address : Nat
  bytes : Bytes
  fits : address + bytes.length < u64
  counted : bytes.length < u32

structure ChunklistContext where
  chunks : Nat
  chunkCount : Nat
  signature : Nat
  hash : Bytes

section Code

def headerSize : Nat := 36
def chunkSize : Nat := 36
def sigLength : Nat := 256

def chunkCount (header : Bytes) : Nat := load header 8 12
def chunkOffset (header : Bytes) : Nat := load header 8 20
def sigOffset (header : Bytes) : Nat := load header 8 28

def reverseSignature (signature : Nat) : Nat → Nat → Bytes → Bytes
  | 0, _, bytes => bytes
  | turns + 1, index, bytes =>
    let low := signature + index
    let high := signature + (sigLength - index - 1)
    reverseSignature signature turns (index + 1)
      ((bytes.set low (bytes.getD high 0)).set high (bytes.getD low 0))

def ocAppleChunklistInitializeContext (sha256 : Bytes → Bytes) (buffer : Buffer) :
    Option (ChunklistContext × Bytes) :=
  let header := buffer.bytes
  if header.length < headerSize then none
  else if load header 4 0 ≠ 0x4C4B4E43 ∨ load header 4 4 ≠ headerSize ∨ load header 1 8 ≠ 1 ∨
      load header 1 9 ≠ 1 ∨ load header 1 10 ≠ 1 then none
  else
    (baseOverflowAdd u64 buffer.address (chunkOffset header)).bind fun chunks =>
    (baseOverflowAdd u64 buffer.address (sigOffset header)).bind fun signature =>
    (baseOverflowMulAdd u64 chunkSize (chunkCount header) chunks).bind fun chunksEnd =>
    if buffer.address + header.length < chunksEnd then none
    else
      (baseOverflowAdd u64 sigLength signature).bind fun sigEnd =>
      if sigEnd ≠ buffer.address + header.length then none
      else
        some ({ chunks, chunkCount := chunkCount header, signature,
                hash := sha256 (header.take (sigOffset header)) },
          reverseSignature (sigOffset header) (sigLength / 2) 0 header)

end Code

section Signed

variable {sha256 : Bytes → Bytes} {buffer : Buffer} {context : ChunklistContext} {after : Bytes}

theorem reverseSignature_frame {signature turns index place : Nat} {bytes : Bytes}
    (before : place < signature) :
    (reverseSignature signature turns index bytes)[place]? = bytes[place]? := by
  induction turns generalizing index bytes with
  | zero => rfl
  | succ turns ih =>
    rw [reverseSignature, ih, List.getElem?_set_ne (by omega), List.getElem?_set_ne (by omega)]

/-- The header and the table of the chunks are hashed, the signature is what is left,
and turning it around leaves the table. -/
structure Signed (sha256 : Bytes → Bytes) (buffer : Buffer) (context : ChunklistContext)
    (after : Bytes) : Prop where
  hashed : context.hash = sha256 (buffer.bytes.take (context.signature - buffer.address))
  header : buffer.address + headerSize ≤ context.signature
  table : ∀ place, context.chunks ≤ place → place < context.chunks + chunkSize * context.chunkCount →
    buffer.address ≤ place ∧ place < context.signature
  signature : context.signature + sigLength = buffer.address + buffer.bytes.length
  entries : slice after (context.chunks - buffer.address) (chunkSize * context.chunkCount) =
    slice buffer.bytes (context.chunks - buffer.address) (chunkSize * context.chunkCount)

/-- The header ends in front of the signature, and so does the table, if it has a chunk. -/
def Separate (header : Bytes) : Prop :=
  headerSize ≤ sigOffset header ∧
    (chunkCount header = 0 ∨ chunkOffset header + chunkSize * chunkCount header ≤ sigOffset header)

instance (header : Bytes) : Decidable (Separate header) := inferInstanceAs (Decidable (_ ∧ _))

theorem accepted_cases
    (accepted : ocAppleChunklistInitializeContext sha256 buffer = some (context, after)) :
    context = ⟨buffer.address + chunkOffset buffer.bytes, chunkCount buffer.bytes,
        buffer.address + sigOffset buffer.bytes, sha256 (buffer.bytes.take (sigOffset buffer.bytes))⟩ ∧
      after = reverseSignature (sigOffset buffer.bytes) (sigLength / 2) 0 buffer.bytes ∧
      sigOffset buffer.bytes + sigLength = buffer.bytes.length := by
  unfold ocAppleChunklistInitializeContext at accepted
  simp only at accepted
  generalize reverseSignature (sigOffset buffer.bytes) (sigLength / 2) 0 buffer.bytes = reversed at *
  generalize sigOffset buffer.bytes = offset at *
  split at accepted
  · cases accepted
  split at accepted
  · cases accepted
  obtain ⟨chunks, start, accepted⟩ := Option.bind_eq_some_iff.mp accepted
  obtain ⟨signature, signed, accepted⟩ := Option.bind_eq_some_iff.mp accepted
  obtain ⟨chunksEnd, -, accepted⟩ := Option.bind_eq_some_iff.mp accepted
  have sameChunks := (baseOverflowAdd_eq_some start).1
  have sameSignature := (baseOverflowAdd_eq_some signed).1
  by_cases beyond : buffer.address + buffer.bytes.length < chunksEnd
  · rw [if_pos beyond] at accepted
    cases accepted
  rw [if_neg beyond] at accepted
  obtain ⟨sigEnd, last, accepted⟩ := Option.bind_eq_some_iff.mp accepted
  have sameEnd := (baseOverflowAdd_eq_some last).1
  clear start signed last beyond
  by_cases ends : sigEnd = buffer.address + buffer.bytes.length
  · rw [if_neg (not_not_intro ends)] at accepted
    have pair := Option.some.inj accepted
    have first := congrArg Prod.fst pair
    have second := congrArg Prod.snd pair
    rw [← sameChunks, ← sameSignature]
    exact ⟨first.symm, second.symm, by omega⟩
  · rw [if_pos ends] at accepted
    cases accepted

/-- An accepted chunklist is signed where its header and its table end in front of the
signature. -/
theorem ocAppleChunklistInitializeContext_signed_iff
    (accepted : ocAppleChunklistInitializeContext sha256 buffer = some (context, after)) :
    Signed sha256 buffer context after ↔ Separate buffer.bytes := by
  obtain ⟨rfl, same, ends⟩ := accepted_cases accepted
  have positive : 0 < chunkSize := by decide
  constructor
  · rintro ⟨-, header, table, -, -⟩
    refine ⟨Nat.le_of_add_le_add_left header, (Nat.eq_zero_or_pos _).imp id fun some => ?_⟩
    have size := Nat.mul_pos positive some
    have last := table (buffer.address + chunkOffset buffer.bytes +
      (chunkSize * chunkCount buffer.bytes - 1)) (Nat.le_add_right ..) (by simp only; omega)
    simp only at last
    omega
  · rintro ⟨header, inside⟩
    refine ⟨by rw [Nat.add_sub_cancel_left], Nat.add_le_add_left header _, ?_, by simp only; omega, ?_⟩
    · intro place above below
      simp only at above below ⊢
      rcases inside with none | inside
      · rw [none, mul_zero] at below
        omega
      · omega
    · apply List.ext_getElem?
      intro index
      rw [Nat.add_sub_cancel_left, getElem?_slice, getElem?_slice]
      split
      next within =>
        simp only at within
        rcases inside with none | inside
        · rw [none, mul_zero] at within
          omega
        · exact same ▸ reverseSignature_frame (by omega)
      next => rfl

end Signed

section Samples

set_option maxRecDepth 4000

def sampleHeader (count sigOffset : UInt8) : Bytes :=
  [0x43, 0x4E, 0x4B, 0x4C, 36, 0, 0, 0, 1, 1, 1, 0, count, 0, 0, 0, 0, 0, 0, 0, 36, 0, 0, 0, 0, 0, 0, 0,
    sigOffset, 0, 0, 0, 0, 0, 0, 0]

def listedBuffer : Buffer :=
  ⟨0x1000, sampleHeader 1 72 ++ List.replicate 292 7, by decide, by decide⟩

def overlappingBuffer : Buffer :=
  ⟨0x1000, sampleHeader 1 36 ++ List.replicate 256 7, by decide, by decide⟩

theorem listedBuffer_signed : ∃ context after,
    ocAppleChunklistInitializeContext id listedBuffer = some (context, after) ∧
      Signed id listedBuffer context after := by
  obtain ⟨⟨context, after⟩, accepted⟩ := Option.isSome_iff_exists.mp
    (show (ocAppleChunklistInitializeContext id listedBuffer).isSome = true by decide)
  exact ⟨context, after, accepted,
    (ocAppleChunklistInitializeContext_signed_iff accepted).mpr (by decide)⟩

theorem overlappingBuffer_accepted : ∃ context after,
    ocAppleChunklistInitializeContext id overlappingBuffer = some (context, after) ∧
      ¬ Signed id overlappingBuffer context after := by
  obtain ⟨⟨context, after⟩, accepted⟩ := Option.isSome_iff_exists.mp
    (show (ocAppleChunklistInitializeContext id overlappingBuffer).isSome = true by decide)
  refine ⟨context, after, accepted, fun signed => ?_⟩
  obtain ⟨rfl, -, -⟩ := accepted_cases accepted
  exact absurd (signed.table 0x1024 (by decide) (by decide)).2 (by decide)

end Samples

end OpenCore.Chunklist
