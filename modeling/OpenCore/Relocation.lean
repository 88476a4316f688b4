import OpenCore.AddressSpace

/-!
One relocation of a kext, after `InternalRelocateRelocation` and the functions it
calls. The instruction is read from the memory of the kext and written back in place.
What the Mach-O library looks up in that memory, and the vtables of the kext and its
dependencies, are parameters of the model.
-/

namespace OpenCore.Relocation

open AddressSpace

structure RelocationInfo where
  address : BitVec 32
  symbolNumber : BitVec 24
  pcRelative : Bool
  size : BitVec 2
  isExtern : Bool
  type : BitVec 4
  deriving DecidableEq

namespace RelocationInfo

def scattered (relocation : RelocationInfo) : Bool := relocation.address.getLsbD 31
def scatteredAddress (relocation : RelocationInfo) : BitVec 32 := relocation.address &&& 0xFFFFFF
def scatteredType (relocation : RelocationInfo) : BitVec 4 := (relocation.address >>> 24).setWidth 4
def scatteredSize (relocation : RelocationInfo) : BitVec 2 := (relocation.address >>> 28).setWidth 2
def scatteredPcRelative (relocation : RelocationInfo) : Bool := relocation.address.getLsbD 30

end RelocationInfo

def machGenericRelocVanilla : BitVec 4 := 0
def machGenericRelocSectDiff : BitVec 4 := 2
def machGenericRelocLocalSectDiff : BitVec 4 := 4

def machX8664RelocUnsigned : BitVec 4 := 0
def machX8664RelocSigned : BitVec 4 := 1
def machX8664RelocBranch : BitVec 4 := 2
def machX8664RelocGotLoad : BitVec 4 := 3
def machX8664RelocGot : BitVec 4 := 4
def machX8664RelocSubtractor : BitVec 4 := 5
def machX8664RelocSigned1 : BitVec 4 := 6
def machX8664RelocSigned2 : BitVec 4 := 7
def machX8664RelocSigned4 : BitVec 4 := 8

def machoRelocationIsPair (is32Bit : Bool) (type : BitVec 4) : Bool :=
  if is32Bit then type == machGenericRelocSectDiff || type == machGenericRelocLocalSectDiff
  else type == machX8664RelocSubtractor

def machoPreserveRelocationIntel64 (type : BitVec 4) : Bool := type == machX8664RelocUnsigned

abbrev Vtable (Name : Type) := List (Option Name)

structure LinkView (Name : Type) where
  is32Bit : Bool
  filePointerByAddress : Memory → BitVec 64 → Option (Nat × Nat)
  symbolByIndex : Memory → Nat → Option (Name × BitVec 64)
  sectionByIndex : Memory → Nat → Option (BitVec 64 × Nat)
  vtableByName : Name → Option (Vtable Name)
  nameIsVtable : Name → Bool
  nameIsPureVirtual : Name → Bool

def alignValue (value alignment : BitVec 64) : BitVec 64 :=
  value + ((alignment - value) &&& (alignment - 1))

section Targets
variable {Name : Type} (view : LinkView Name) (memory : Memory) (loadAddress : BitVec 64)

def targetAddress (relocation : RelocationInfo) : Option (BitVec 64 × Option (Vtable Name)) :=
  if relocation.isExtern then
    (view.symbolByIndex memory relocation.symbolNumber.toNat).map fun (name, value) =>
      (value, if view.nameIsVtable name then view.vtableByName name else none)
  else if relocation.symbolNumber.toNat = 0 ∨ relocation.symbolNumber.toNat > 255 then none
  else
    (view.sectionByIndex memory (relocation.symbolNumber.toNat - 1)).map fun (address, alignment) =>
      (alignValue (address + loadAddress) (1 <<< alignment) - address, none)

/-- `InternalCalculateTargets`: the targets of the relocation and of its pair. -/
def internalCalculateTargets (relocation : RelocationInfo) (next : Option RelocationInfo) :
    Option (BitVec 64 × BitVec 64 × Option (Vtable Name)) :=
  match targetAddress view memory loadAddress relocation with
  | none => none
  | some (target, vtable) =>
    if machoRelocationIsPair view.is32Bit relocation.type then
      match next with
      | none => none
      | some pair =>
        match targetAddress view memory loadAddress pair with
        | none => none
        | some (pairTarget, _) =>
          -- The second of a pair is asked without a successor.
          if machoRelocationIsPair view.is32Bit pair.type then none
          else some (target, pairTarget, vtable)
    else some (target, 0, vtable)

def internalIsDirectPureVirtualCall (vtable : Vtable Name) (offset : BitVec 64) : Bool :=
  let entrySize := if view.is32Bit then 4 else 8
  if offset.toNat % entrySize ≠ 0 ∨ offset.toNat < entrySize then false
  else
    match (vtable[(offset.toNat - entrySize) / entrySize]?).join with
    | none => false
    | some name => view.nameIsPureVirtual name

end Targets

def internalCalculateDisplacementIntel64 (target adjustment : BitVec 64) (instruction : BitVec 32) :
    Option (BitVec 32) :=
  let displacement := instruction.signExtend 64 + target - adjustment
  let difference := if displacement.toInt < 0 then -displacement else displacement
  if difference.toNat ≥ 0x80000000 then none else some (displacement.setWidth 32)

/-- The first `switch` over the type of a 32-bit relocation of a 64-bit kext. -/
def sizeAdjustment (type : BitVec 4) (isNormalLocal : Bool) (length : Nat) : BitVec 64 :=
  if type = machX8664RelocSigned ∧ isNormalLocal then 0
  else if type = machX8664RelocSigned1 ∧ isNormalLocal then 1
  else if type = machX8664RelocSigned2 ∧ isNormalLocal then 2
  else if type = machX8664RelocSigned4 ∧ isNormalLocal then 4
  else if type = machX8664RelocSigned ∨ type = machX8664RelocSigned1 ∨
      type = machX8664RelocSigned2 ∨ type = machX8664RelocSigned4 ∨ type = machX8664RelocBranch ∨
      type = machX8664RelocGot ∨ type = machX8664RelocGotLoad then 1 <<< length
  else 0

structure Displacement where
  place : Nat
  target : BitVec 64
  adjustment : BitVec 64
  before : BitVec 32
  after : BitVec 32

structure Relocated where
  memory : Memory
  preserved : Bool
  isPair : Bool
  displacement : Option Displacement

/-- What a 32-bit instruction of a 64-bit kext becomes: the second `switch`, and the
displacement. -/
structure Patch where
  target : BitVec 64
  adjustment : BitVec 64
  instruction : BitVec 32
  isPair : Bool

def patchIntel64 (type : BitVec 4) (isNormalLocal : Bool) (length : Nat)
    (target pairTarget loadAddress linkPc : BitVec 64) (instruction : BitVec 32) : Option Patch :=
  let adjustment := sizeAdjustment type isNormalLocal length
  if type = machX8664RelocBranch then some ⟨target, adjustment + linkPc, instruction, false⟩
  else if type = machX8664RelocSigned ∨ type = machX8664RelocSigned1 ∨
      type = machX8664RelocSigned2 ∨ type = machX8664RelocSigned4 then
    some ⟨target, adjustment + (if isNormalLocal then loadAddress else linkPc), instruction, false⟩
  else if type = machX8664RelocGot ∨ type = machX8664RelocGotLoad then
    some ⟨pairTarget, adjustment + linkPc, instruction, true⟩
  else if type = machX8664RelocSubtractor then
    some ⟨target, adjustment, (target - pairTarget).setWidth 32, true⟩
  else none

structure Fields where
  address : BitVec 32
  length : Nat
  type : BitVec 4
  pcRelative : Bool

def relocationFields (is32Bit : Bool) (relocation : RelocationInfo) : Fields :=
  if is32Bit ∧ relocation.scattered then
    ⟨relocation.scatteredAddress, relocation.scatteredSize.toNat, relocation.scatteredType,
      relocation.scatteredPcRelative⟩
  else ⟨relocation.address, relocation.size.toNat, relocation.type, relocation.pcRelative⟩

def instructionSize (length : Nat) : Nat := if length ≠ 3 then 4 else 8

section Relocate
variable {Name : Type} (view : LinkView Name) (memory : Memory)
  (loadAddress relocationBase : BitVec 64)

def relocationTargets (relocation : RelocationInfo) (next : Option RelocationInfo) :
    Option (BitVec 64 × BitVec 64 × Option (Vtable Name)) :=
  if view.is32Bit ∧ relocation.scattered then some (loadAddress, 0, none)
  else internalCalculateTargets view memory loadAddress relocation next

def relocate32 (fields : Fields) (isNormalLocal : Bool) (target pairTarget : BitVec 64)
    (vtable : Option (Vtable Name)) (instructionPtr : Nat) : Option Relocated :=
  let instruction := BitVec.ofNat 32 (load memory 4 instructionPtr)
  let linkPc := fields.address.setWidth 64 + loadAddress
  if vtable.any (internalIsDirectPureVirtualCall view · (instruction.signExtend 64)) then none
  else if view.is32Bit then
    let target :=
      if fields.pcRelative then target + fields.address.setWidth 64 - (linkPc + relocationBase)
      else target
    if fields.type = machGenericRelocVanilla then
      some ⟨store memory 4 instructionPtr (instruction + target.setWidth 32).toNat, false, false, none⟩
    else none
  else
    match patchIntel64 fields.type isNormalLocal fields.length target pairTarget loadAddress linkPc
        instruction with
    | none => none
    | some patch =>
      let preserved := machoPreserveRelocationIntel64 fields.type
      if fields.pcRelative then
        (internalCalculateDisplacementIntel64 patch.target patch.adjustment
          patch.instruction).map fun after =>
            ⟨store memory 4 instructionPtr after.toNat, preserved, patch.isPair,
              some ⟨instructionPtr, patch.target, patch.adjustment, patch.instruction, after⟩⟩
      else some ⟨store memory 4 instructionPtr patch.instruction.toNat, preserved, patch.isPair, none⟩

def relocate64 (fields : Fields) (target pairTarget : BitVec 64) (vtable : Option (Vtable Name))
    (instructionPtr : Nat) : Option Relocated :=
  let instruction := BitVec.ofNat 64 (load memory 8 instructionPtr)
  let preserved := !view.is32Bit && machoPreserveRelocationIntel64 fields.type
  if vtable.any (internalIsDirectPureVirtualCall view · instruction) then none
  else if fields.type = machX8664RelocUnsigned then
    some ⟨store memory 8 instructionPtr (instruction + target).toNat, preserved, false, none⟩
  else if fields.type = machX8664RelocSubtractor then
    some ⟨store memory 8 instructionPtr (target - pairTarget).toNat, preserved, true, none⟩
  else none

def internalRelocateRelocation (relocation : RelocationInfo) (next : Option RelocationInfo) :
    Option Relocated :=
  let fields := relocationFields view.is32Bit relocation
  if fields.length < 2 then none
  else
    match view.filePointerByAddress memory (relocationBase + fields.address.setWidth 64) with
    | none => none
    | some (instructionPtr, maxSize) =>
      if maxSize < instructionSize fields.length then none
      else
        match relocationTargets view memory loadAddress relocation next with
        | none => none
        | some (target, pairTarget, vtable) =>
          if fields.length ≠ 3 then
            relocate32 view memory loadAddress relocationBase fields (!relocation.isExtern) target
              pairTarget vtable instructionPtr
          else relocate64 view memory fields target pairTarget vtable instructionPtr

end Relocate

structure Displacement.Exact (displacement : Displacement) (memory : Memory) : Prop where
  value : displacement.after.signExtend 64 =
    displacement.before.signExtend 64 + displacement.target - displacement.adjustment
  written : load memory 4 displacement.place = displacement.after.toNat

theorem internalCalculateDisplacementIntel64_exact {target adjustment : BitVec 64}
    {instruction after : BitVec 32}
    (patched : internalCalculateDisplacementIntel64 target adjustment instruction = some after) :
    after.signExtend 64 = instruction.signExtend 64 + target - adjustment := by
  unfold internalCalculateDisplacementIntel64 at patched
  generalize instruction.signExtend 64 + target - adjustment = displacement at patched ⊢
  by_cases far : (if displacement.toInt < 0 then -displacement else displacement).toNat ≥ 0x80000000
  · simp only [far, ↓reduceIte] at patched
    cases patched
  · simp only [far, ↓reduceIte] at patched
    cases patched
    have bound := displacement.isLt
    have negated : (-displacement).toNat = (2 ^ 64 - displacement.toNat) % 2 ^ 64 :=
      BitVec.toNat_neg displacement
    have near : displacement.toNat < 2 ^ 31 ∨ 2 ^ 64 - 2 ^ 31 < displacement.toNat := by
      by_cases negative : displacement.toInt < 0
      · rw [if_pos negative] at far
        rw [BitVec.toInt_eq_toNat_cond] at negative
        split at negative
        · omega
        · omega
      · rw [if_neg negative] at far
        omega
    apply BitVec.eq_of_toInt_eq
    rw [BitVec.toInt_signExtend_of_le (by decide), BitVec.toInt_eq_toNat_cond,
      BitVec.toInt_eq_toNat_cond, BitVec.toNat_setWidth]
    split
    · split
      · omega
      · omega
    · split
      · omega
      · omega

def takesNext (is32Bit : Bool) (relocation : RelocationInfo) : Bool :=
  let fields := relocationFields is32Bit relocation
  if fields.length ≠ 3 then
    !is32Bit && (fields.type == machX8664RelocGot || fields.type == machX8664RelocGotLoad ||
      fields.type == machX8664RelocSubtractor)
  else fields.type == machX8664RelocSubtractor

def isUnsigned (is32Bit : Bool) (relocation : RelocationInfo) : Bool :=
  !is32Bit && relocation.type == machX8664RelocUnsigned

section Spec
variable {Name : Type} {view : LinkView Name} {memory : Memory}
  {loadAddress relocationBase : BitVec 64}
variable {done : Relocated} {target pairTarget : BitVec 64} {vtable : Option (Vtable Name)}
  {isNormalLocal : Bool} {instructionPtr : Nat} {fields : Fields}

structure RelocatedSpec (view : LinkView Name) (relocation : RelocationInfo) (done : Relocated) :
    Prop where
  isPair : done.isPair = takesNext view.is32Bit relocation
  preserved : done.preserved = isUnsigned view.is32Bit relocation
  exact : ∀ displacement ∈ done.displacement, displacement.Exact done.memory

theorem patchIntel64_isPair {type : BitVec 4} {length : Nat}
    {target pairTarget linkPc : BitVec 64} {instruction : BitVec 32} {patch : Patch}
    (patched : patchIntel64 type isNormalLocal length target pairTarget loadAddress linkPc
      instruction = some patch) :
    patch.isPair = (type == machX8664RelocGot || type == machX8664RelocGotLoad ||
      type == machX8664RelocSubtractor) := by
  unfold patchIntel64 at patched
  simp only at patched
  split at patched
  · rename_i branch
    cases patched
    rw [branch]
    rfl
  · split at patched
    · rename_i signed
      cases patched
      rcases signed with rfl | rfl | rfl | rfl
      · rfl
      · rfl
      · rfl
      · rfl
    · split at patched
      · rename_i got
        cases patched
        rcases got with rfl | rfl
        · rfl
        · rfl
      · split at patched
        · rename_i subtractor
          cases patched
          rw [subtractor]
          rfl
        · cases patched

theorem relocate32_spec
    (relocated : relocate32 view memory loadAddress relocationBase fields isNormalLocal target
      pairTarget vtable instructionPtr = some done) :
    done.isPair = (!view.is32Bit && (fields.type == machX8664RelocGot ||
        fields.type == machX8664RelocGotLoad || fields.type == machX8664RelocSubtractor)) ∧
      done.preserved = (!view.is32Bit && machoPreserveRelocationIntel64 fields.type) ∧
      ∀ displacement ∈ done.displacement, displacement.Exact done.memory := by
  unfold relocate32 at relocated
  simp only at relocated
  split at relocated
  · cases relocated
  · split at relocated
    · rename_i narrow
      generalize (if fields.pcRelative = true then _ else target) = moved at relocated
      split at relocated
      · cases relocated
        rw [narrow]
        exact ⟨rfl, rfl, fun displacement member => nomatch member⟩
      · cases relocated
    · rename_i wide
      rw [Bool.not_eq_true] at wide
      rw [wide]
      split at relocated
      · cases relocated
      · rename_i patch patched
        have pair := patchIntel64_isPair patched
        split at relocated
        · rw [Option.map_eq_some_iff] at relocated
          obtain ⟨after, computed, rfl⟩ := relocated
          refine ⟨pair, rfl, ?_⟩
          intro displacement member
          cases member
          constructor
          · exact internalCalculateDisplacementIntel64_exact computed
          · show load (store memory 4 instructionPtr after.toNat) 4 instructionPtr = after.toNat
            rw [load_store]
            exact Nat.mod_eq_of_lt after.isLt
        · cases relocated
          exact ⟨pair, rfl, fun displacement member => nomatch member⟩

theorem relocate64_spec
    (relocated : relocate64 view memory fields target pairTarget vtable instructionPtr =
      some done) :
    done.isPair = (fields.type == machX8664RelocSubtractor) ∧
      done.preserved = (!view.is32Bit && machoPreserveRelocationIntel64 fields.type) ∧
      done.displacement = none := by
  unfold relocate64 at relocated
  simp only at relocated
  split at relocated
  · cases relocated
  · split at relocated
    · rename_i unsigned
      cases relocated
      rw [unsigned]
      exact ⟨rfl, rfl, rfl⟩
    · split at relocated
      · rename_i subtractor
        cases relocated
        rw [subtractor]
        exact ⟨rfl, rfl, rfl⟩
      · cases relocated

theorem internalRelocateRelocation_spec {relocation : RelocationInfo}
    {next : Option RelocationInfo}
    (relocated : internalRelocateRelocation view memory loadAddress relocationBase relocation next =
      some done) : RelocatedSpec view relocation done := by
  have kept : (!view.is32Bit &&
      machoPreserveRelocationIntel64 (relocationFields view.is32Bit relocation).type) =
        isUnsigned view.is32Bit relocation := by
    cases is32Bit : view.is32Bit with
    | true => rfl
    | false => rw [relocationFields, if_neg (fun both => nomatch both.1)]; rfl
  unfold internalRelocateRelocation at relocated
  simp only at relocated
  split at relocated
  · cases relocated
  · split at relocated
    · cases relocated
    · split at relocated
      · cases relocated
      · split at relocated
        · cases relocated
        · split at relocated
          · rename_i short
            obtain ⟨pair, preserved, exact⟩ := relocate32_spec relocated
            refine ⟨?_, preserved.trans kept, exact⟩
            rw [pair, takesNext, if_pos short]
          · rename_i long
            obtain ⟨pair, preserved, none⟩ := relocate64_spec relocated
            refine ⟨?_, preserved.trans kept, ?_⟩
            · rw [pair, takesNext, if_neg long]
            · rw [none]
              intro displacement member
              cases member

end Spec

end OpenCore.Relocation
