import OpenCore.ByteBuffer

/-!
A scan over a buffer that patches what it finds while it goes on. What is found at a
position may rest on bytes that earlier patches wrote; a buffer is rigid when it does not.
-/

namespace OpenCore.PatchScan

open ByteBuffer List

structure Patch where
  offset : Nat
  width : Nat
  value : Nat
  deriving DecidableEq

def Patch.apply (patch : Patch) (buffer : Bytes) : Bytes :=
  store buffer patch.width patch.offset patch.value

def Patch.Inside (patch : Patch) (buffer : Bytes) : Prop :=
  patch.offset + patch.width ≤ buffer.length

def Patch.Present (patch : Patch) (buffer : Bytes) : Prop :=
  load buffer patch.width patch.offset = patch.value % 256 ^ patch.width

variable (find : Bytes → Nat → Option Patch)

def scan : List Nat → Bytes → Bytes
  | [], buffer => buffer
  | position :: rest, buffer =>
    match find buffer position with
    | none => scan rest buffer
    | some patch => scan rest (patch.apply buffer)

structure SameOutside (positions : List Nat) (buffer after : Bytes) : Prop where
  length : after.length = buffer.length
  bytes : ∀ index, (∀ position ∈ positions, ∀ patch, find buffer position = some patch →
    index < patch.offset ∨ patch.offset + patch.width ≤ index) →
    byteAt after index = byteAt buffer index

def Rigid (positions : List Nat) (buffer : Bytes) : Prop :=
  ∀ after, SameOutside find positions buffer after →
    ∀ position ∈ positions, find after position = find buffer position

def Undisputed (positions : List Nat) (buffer : Bytes) (patch : Patch) : Prop :=
  ∀ position ∈ positions, ∀ other, find buffer position = some other →
    other = patch ∨ Apart other.offset other.width patch.offset patch.width

section Lemmas

variable {find} {positions rest : List Nat} {buffer after : Bytes} {patch : Patch}

theorem store_present {width offset value : Nat} (inside : offset + width ≤ buffer.length)
    (present : load buffer width offset = value % 256 ^ width) :
    store buffer width offset value = buffer := by
  induction width generalizing offset value with
  | zero => rfl
  | succ width ih =>
    have bound : offset < buffer.length := by omega
    have first := byteAt_lt buffer offset
    rw [load, Nat.pow_succ', Nat.mod_mul] at present
    have low : byteAt buffer offset = value % 256 := by omega
    have high : load buffer width (offset + 1) = value / 256 % 256 ^ width := by omega
    have byte : UInt8.ofNat value = buffer[offset] := by
      rw [byteAt, getD_eq_getElem?_getD, getElem?_eq_getElem bound, Option.getD_some] at low
      exact UInt8.toNat_inj.mp (by rw [UInt8.toNat_ofNat', low])
    rw [store, byte, set_getElem_self]
    exact ih (by omega) high

theorem Patch.Present.apply (present : patch.Present buffer) (inside : patch.Inside buffer) :
    patch.apply buffer = buffer := store_present inside present

theorem Patch.present_apply (inside : patch.Inside buffer) : patch.Present (patch.apply buffer) :=
  load_store_same buffer patch.width patch.offset patch.value inside

theorem Patch.apply_length : (patch.apply buffer).length = buffer.length :=
  store_length buffer patch.width patch.offset patch.value

theorem SameOutside.refl (positions : List Nat) (buffer : Bytes) :
    SameOutside find positions buffer buffer := ⟨rfl, fun _ _ => rfl⟩

theorem SameOutside.apply {position : Nat} (same : SameOutside find positions buffer after)
    (member : position ∈ positions) (found : find buffer position = some patch)
    (inside : patch.Inside buffer) : SameOutside find positions buffer (patch.apply after) where
  length := Patch.apply_length.trans same.length
  bytes := fun index outside => by
    have within : patch.offset + patch.width ≤ after.length := by
      rw [same.length]
      exact inside
    rw [Patch.apply, byteAt_store_outside after _ _ _ index within (outside position member patch found)]
    exact same.bytes index outside

section

variable (rigid : Rigid find positions buffer)
  (inside : ∀ position ∈ positions, ∀ patch, find buffer position = some patch → patch.Inside buffer)
include rigid inside

theorem scan_sameOutside
    (same : SameOutside find positions buffer after) (part : ∀ position ∈ rest, position ∈ positions) :
    SameOutside find positions buffer (scan find rest after) := by
  induction rest generalizing after with
  | nil => exact same
  | cons position rest ih =>
    have member := part position mem_cons_self
    have later : ∀ other ∈ rest, other ∈ positions :=
      fun other behind => part other (mem_cons_of_mem _ behind)
    rw [scan]
    cases found : find after position with
    | none => exact ih same later
    | some patch =>
      rw [rigid after same position member] at found
      exact ih (same.apply member found (inside position member patch found)) later

/-- A patch that is found beforehand and not disputed is there at the end; once it is
made, the rest of the scan keeps it. -/
theorem scan_patched {place : Nat}
    (found : find buffer place = some patch) (undisputed : Undisputed find positions buffer patch)
    (same : SameOutside find positions buffer after) (part : ∀ position ∈ rest, position ∈ positions)
    (ahead : place ∈ rest ∨ patch.Present after) : patch.Present (scan find rest after) := by
  induction rest generalizing after with
  | nil => exact ahead.resolve_left not_mem_nil
  | cons position rest ih =>
    have member := part position mem_cons_self
    have later : ∀ other ∈ rest, other ∈ positions :=
      fun other behind => part other (mem_cons_of_mem _ behind)
    have still := rigid after same position member
    rw [scan]
    cases met : find after position with
    | none =>
      refine ih same later (ahead.imp_left fun at' => ?_)
      rcases mem_cons.mp at' with rfl | behind
      · rw [still, found] at met
        cases met
      · exact behind
    | some other =>
      rw [met] at still
      have within := inside position member other still.symm
      have fits : other.offset + other.width ≤ after.length := by
        rw [same.length]
        exact within
      have next := same.apply member still.symm within
      by_cases this : other = patch
      · subst this
        exact ih next later (.inr (Patch.present_apply fits))
      have apart := (undisputed position member other still.symm).resolve_left this
      refine ih next later (ahead.imp (fun at' => ?_) fun present => ?_)
      · rcases mem_cons.mp at' with rfl | behind
        · rw [found] at still
          exact absurd (Option.some.inj still) this
        · exact behind
      · rw [Patch.Present, Patch.apply, load_store_apart after _ _ _ _ _ fits apart]
        exact present

end

end Lemmas

end OpenCore.PatchScan
