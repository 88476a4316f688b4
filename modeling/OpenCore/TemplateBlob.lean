import OpenCore.ByteBuffer

/-!
`OcBlobAllocate`: a blob keeps its bytes in the structure itself as long as they fit there, and in
a buffer from the pool otherwise. The buffer is given back before a larger one is asked for.
-/

namespace OpenCore.TemplateBlob

open ByteBuffer

section Source

structure Blob where
  size : Nat
  maxSize : Nat
  dynValue : Option Bytes
  value : Bytes
  deriving DecidableEq

def ocBlobGet (blob : Blob) : Bytes := blob.dynValue.getD blob.value

structure Request where
  size : Nat
  pool : Option (Nat → UInt8)

def newBuffer (blob : Blob) (size : Nat) (pool : Nat → UInt8) : Bytes :=
  blob.value ++ (List.range (size - blob.maxSize)).map fun index => pool (blob.maxSize + index)

def ocBlobAllocate (blob : Blob) (request : Request) : Option Bytes × Blob :=
  if request.size ≤ blob.maxSize then
    (some blob.value, { blob with dynValue := none, size := request.size })
  else if blob.size < request.size then
    match request.pool with
    -- the old buffer is gone, and the size is still the one it had
    | none => (none, { blob with dynValue := none })
    | some pool =>
      let buffer := newBuffer blob request.size pool
      (some buffer, { blob with dynValue := some buffer, size := request.size })
  else (blob.dynValue, { blob with size := request.size })

end Source

section Runs
variable {blob : Blob} {request : Request} {requests : List Request}

structure Constructed (blob : Blob) : Prop where
  unallocated : blob.dynValue = none
  static : blob.value.length = blob.maxSize
  bounded : blob.size ≤ blob.maxSize

def Within (blob : Blob) : Prop := blob.size ≤ (ocBlobGet blob).length

def Readable (before after : Blob) : Prop := after = before ∨ after.size = 0

/-- A call succeeds with the buffer that is designated then and the size that was asked for, or it
fails and leaves the blob readable. -/
structure Answers (before : Blob) (request : Request) (returned : Option Bytes) (after : Blob) :
    Prop where
  success : ∀ buffer, returned = some buffer → buffer = ocBlobGet after ∧ after.size = request.size
  failure : returned = none → Readable before after

/-- The blob is within its buffer at every moment of a run, and every call answers. -/
def Sound : Blob → List Request → Prop
  | blob, [] => Within blob
  | blob, request :: rest =>
    Within blob ∧
      Answers blob request (ocBlobAllocate blob request).1 (ocBlobAllocate blob request).2 ∧
      Sound (ocBlobAllocate blob request).2 rest

def Replaceable (blob : Blob) (request : Request) : Prop :=
  blob.dynValue.isSome = true → blob.maxSize < request.size → blob.size < request.size →
    request.pool.isSome = true

def Careful : Blob → List Request → Prop
  | _, [] => True
  | blob, request :: rest => Replaceable blob request ∧ Careful (ocBlobAllocate blob request).2 rest

structure Settled (blob : Blob) : Prop where
  static : blob.value.length = blob.maxSize
  inside : blob.dynValue = none → blob.size ≤ blob.maxSize
  outside : ∀ buffer, blob.dynValue = some buffer → blob.maxSize < blob.size ∧ blob.size ≤ buffer.length

theorem Constructed.settled (constructed : Constructed blob) : Settled blob where
  static := constructed.static
  inside _ := constructed.bounded
  outside buffer found := by
    rw [constructed.unallocated] at found
    cases found

theorem Settled.within (settled : Settled blob) : Within blob := by
  unfold Within ocBlobGet
  cases found : blob.dynValue with
  | none => exact (settled.inside found).trans_eq settled.static.symm
  | some buffer => exact (settled.outside buffer found).2

theorem newBuffer_length (static : blob.value.length = blob.maxSize) {size : Nat}
    (large : blob.maxSize < size) (pool : Nat → UInt8) : (newBuffer blob size pool).length = size := by
  rw [newBuffer, List.length_append, List.length_map, List.length_range, static]
  exact Nat.add_sub_cancel' large.le

inductive Stepped (blob : Blob) (request : Request) : Option Bytes → Blob → Prop where
  | inside (fits : request.size ≤ blob.maxSize) :
      Stepped blob request (some blob.value) { blob with dynValue := none, size := request.size }
  | refused (large : blob.maxSize < request.size) (grows : blob.size < request.size)
      (failed : request.pool = none) : Stepped blob request none { blob with dynValue := none }
  | replaced {pool : Nat → UInt8} (large : blob.maxSize < request.size)
      (grows : blob.size < request.size) (given : request.pool = some pool) :
      Stepped blob request (some (newBuffer blob request.size pool))
        { blob with dynValue := some (newBuffer blob request.size pool), size := request.size }
  | reused (large : blob.maxSize < request.size) (shrinks : request.size ≤ blob.size) :
      Stepped blob request blob.dynValue { blob with size := request.size }

theorem ocBlobAllocate_stepped (blob : Blob) (request : Request) :
    Stepped blob request (ocBlobAllocate blob request).1 (ocBlobAllocate blob request).2 := by
  unfold ocBlobAllocate
  split
  · rename_i fits
    exact .inside fits
  · rename_i large
    split
    · rename_i grows
      cases given : request.pool with
      | none => exact .refused (Nat.lt_of_not_le large) grows given
      | some pool => exact .replaced (Nat.lt_of_not_le large) grows given
    · rename_i shrinks
      exact .reused (Nat.lt_of_not_le large) (Nat.le_of_not_lt shrinks)

theorem Stepped.answers {returned : Option Bytes} {after : Blob} (settled : Settled blob)
    (stepped : Stepped blob request returned after) (replaceable : Replaceable blob request) :
    Answers blob request returned after ∧ Settled after := by
  cases stepped with
  | inside fits =>
    refine ⟨⟨fun buffer same => ?_, fun clash => ?_⟩, ⟨settled.static, fun _ => fits, ?_⟩⟩
    · cases same
      exact ⟨rfl, rfl⟩
    · cases clash
    · intro buffer clash
      cases clash
  | refused large grows failed =>
    have unallocated : blob.dynValue = none := by
      by_contra allocated
      have given := replaceable (Option.isSome_iff_ne_none.mpr allocated) large grows
      rw [failed] at given
      cases given
    have same : { blob with dynValue := none } = blob := by rw [← unallocated]
    rw [same]
    refine ⟨⟨fun buffer clash => ?_, fun _ => .inl rfl⟩, settled⟩
    cases clash
  | replaced large grows given =>
    have length := newBuffer_length settled.static large
    refine ⟨⟨fun buffer same => ?_, fun clash => ?_⟩, ⟨settled.static, fun clash => ?_, ?_⟩⟩
    · cases same
      exact ⟨rfl, rfl⟩
    · cases clash
    · cases clash
    · intro buffer same
      cases same
      exact ⟨large, (length _).ge⟩
  | reused large shrinks =>
    cases found : blob.dynValue with
    | none => exact absurd (settled.inside found) (by omega)
    | some old =>
      refine ⟨⟨fun buffer same => ?_, fun clash => ?_⟩,
        ⟨settled.static, fun clash => ?_, fun buffer same => ⟨large, ?_⟩⟩⟩
      · cases same
        exact ⟨rfl, rfl⟩
      · cases clash
      · cases clash
      · cases same
        exact shrinks.trans (settled.outside old found).2

theorem not_within_of_refused (settled : Settled blob) (refused : ¬ Replaceable blob request) :
    ¬ Within (ocBlobAllocate blob request).2 := by
  unfold Replaceable at refused
  push Not at refused
  obtain ⟨allocated, large, grows, failed⟩ := refused
  obtain ⟨buffer, found⟩ := Option.isSome_iff_exists.mp allocated
  have result : ocBlobAllocate blob request = (none, { blob with dynValue := none }) := by
    rw [ocBlobAllocate, if_neg (Nat.not_le_of_lt large), if_pos grows,
      Option.not_isSome_iff_eq_none.mp failed]
  have larger := (settled.outside buffer found).1
  rw [result]
  intro within
  exact absurd (within.trans_eq settled.static) (Nat.not_le_of_lt larger)

theorem sound_within : Sound blob requests → Within blob := by
  intro sound
  cases requests with
  | nil => exact sound
  | cons request rest => exact sound.1

theorem sound_iff (settled : Settled blob) : Sound blob requests ↔ Careful blob requests := by
  induction requests generalizing blob with
  | nil => exact iff_of_true settled.within trivial
  | cons request rest ih =>
    have stepped := ocBlobAllocate_stepped blob request
    constructor
    · intro sound
      have replaceable : Replaceable blob request := by
        by_contra refused
        exact not_within_of_refused settled refused (sound_within sound.2.2)
      exact ⟨replaceable, (ih (stepped.answers settled replaceable).2).mp sound.2.2⟩
    · intro careful
      obtain ⟨answers, after⟩ := stepped.answers settled careful.1
      exact ⟨settled.within, answers, (ih after).mpr careful.2⟩

/-- A run from a constructed blob is sound exactly if the pool has memory wherever a buffer is
replaced by a larger one. -/
theorem ocBlobAllocate_sound (constructed : Constructed blob) :
    Sound blob requests ↔ Careful blob requests :=
  sound_iff constructed.settled

def emptyBlob : Blob := ⟨0, 4, none, [0, 0, 0, 0]⟩

def zeros : Nat → UInt8 := fun _ => 0

/-- It grows out of the structure, shrinks, returns to the structure, and fails to grow. -/
theorem ocBlobAllocate_sound_shrinking :
    Sound emptyBlob [⟨6, some zeros⟩, ⟨5, none⟩, ⟨3, none⟩, ⟨9, none⟩] := by
  refine (ocBlobAllocate_sound ⟨rfl, rfl, by decide⟩).mpr ⟨?_, ?_, ?_, ?_, trivial⟩
  · exact fun allocated => absurd allocated (by decide)
  · exact fun _ _ grows => absurd grows (by decide)
  · exact fun _ large => absurd large (by decide)
  · exact fun allocated => absurd allocated (by decide)

/-- The pool gives six bytes and has no eight: the size is still six, and the structure has four. -/
theorem ocBlobAllocate_failed_growth :
    (ocBlobAllocate (ocBlobAllocate emptyBlob ⟨6, some zeros⟩).2 ⟨8, none⟩).2 =
        ⟨6, 4, none, [0, 0, 0, 0]⟩ ∧
      ¬ Sound emptyBlob [⟨6, some zeros⟩, ⟨8, none⟩] := by
  refine ⟨by decide, fun sound => ?_⟩
  have within : (6 : Nat) ≤ 4 := sound.2.2.2.2
  exact absurd within (by decide)

end Runs

end OpenCore.TemplateBlob
