import Mathlib.Data.Nat.Basic

/-!
The parts of the UEFI base environment the modelled libraries share: status
codes, fixed-width arithmetic and page rounding. Machine integers are natural
numbers, and every operation that can wrap says so by its modulus.
-/

namespace OpenCore.Base

inductive EfiStatus where
  | success
  | loadError
  | invalidParameter
  | unsupported
  | bufferTooSmall
  | outOfResources
  | notFound
  | alreadyStarted
  deriving DecidableEq

def EfiStatus.isError (status : EfiStatus) : Bool := status != .success

def u16 : Nat := 0x10000
def u32 : Nat := 0x100000000
def u64 : Nat := 0x10000000000000000

def machoPageSize : Nat := 4096

@[simp] theorem u16_val : u16 = 65536 := rfl
@[simp] theorem u32_val : u32 = 4294967296 := rfl
@[simp] theorem u64_val : u64 = 18446744073709551616 := rfl
@[simp] theorem machoPageSize_val : machoPageSize = 4096 := rfl

def baseOverflowAdd (modulus left right : Nat) : Option Nat :=
  if left + right < modulus then some (left + right) else none

def baseOverflowMul (modulus left right : Nat) : Option Nat :=
  if left * right < modulus then some (left * right) else none

/-- `BaseOverflowMulAddU32` and `BaseOverflowMulAddU64`: `left * right + addend`. -/
def baseOverflowMulAdd (modulus left right addend : Nat) : Option Nat :=
  (baseOverflowMul modulus left right).bind fun product =>
    baseOverflowAdd modulus product addend

def wrapSub (modulus left right : Nat) : Nat := (left + (modulus - right % modulus)) % modulus

/-- `MACHO_ALIGN` on a value of the given width: it wraps within a page of the top. -/
def machoAlign (modulus value : Nat) : Nat :=
  (value + (machoPageSize - value % machoPageSize) % machoPageSize) % modulus

variable {modulus left right total : Nat}

theorem baseOverflowAdd_eq_some (added : baseOverflowAdd modulus left right = some total) :
    total = left + right ∧ left + right < modulus := by
  unfold baseOverflowAdd at added
  split at added
  · exact ⟨(Option.some.inj added).symm, by assumption⟩
  · cases added

theorem baseOverflowMul_eq_some (multiplied : baseOverflowMul modulus left right = some total) :
    total = left * right ∧ left * right < modulus := by
  unfold baseOverflowMul at multiplied
  split at multiplied
  · exact ⟨(Option.some.inj multiplied).symm, by assumption⟩
  · cases multiplied

theorem baseOverflowMulAdd_eq_some {modulus left right addend total : Nat}
    (computed : baseOverflowMulAdd modulus left right addend = some total) :
    total = left * right + addend ∧ left * right + addend < modulus := by
  unfold baseOverflowMulAdd at computed
  cases product : baseOverflowMul modulus left right with
  | none => simp [product] at computed
  | some value =>
    rw [product, Option.bind_some] at computed
    obtain ⟨same, _⟩ := baseOverflowMul_eq_some product
    obtain ⟨sum, bound⟩ := baseOverflowAdd_eq_some computed
    subst same
    exact ⟨sum, bound⟩

theorem wrapSub_of_le {modulus left right : Nat} (ordered : right ≤ left)
    (bound : left < modulus) : wrapSub modulus left right = left - right := by
  have small : right % modulus = right := Nat.mod_eq_of_lt (by omega)
  have sum : left + (modulus - right) = (left - right) + modulus := by omega
  rw [wrapSub, small, sum, Nat.add_mod_right, Nat.mod_eq_of_lt (by omega)]

theorem wrapSub_eq {modulus left right : Nat} (leftFits : left < modulus)
    (rightFits : right < modulus) :
    wrapSub modulus left right = if right ≤ left then left - right else left + modulus - right := by
  split
  · rename_i ordered
    exact wrapSub_of_le ordered leftFits
  · rw [wrapSub, Nat.mod_eq_of_lt rightFits, Nat.mod_eq_of_lt (by omega)]
    omega

end OpenCore.Base
