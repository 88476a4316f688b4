import OpenCore.BigNumPrimitives
import Mathlib.Data.Nat.ModEq
import Mathlib.Tactic.Linarith

/-!
Montgomery multiplication, after `BigNumMontgomery.c`. A row adds a word of the
multiplicand times the multiplier and a multiple of the modulus that clears the
lowest word, and drops that word. Two carry chains run side by side. A row is
reduced only when it leaves the words it has, not whenever it reaches the modulus.
-/

namespace OpenCore.BigNumMontgomery

open WordArray BigNumPrimitives List

variable {width : Nat}

def bigNumWordAddMul (c a b : BitVec width) : BitVec width × BitVec width :=
  let (resHi, product) := bigNumWordMul a b
  let resLo := product + c
  (if resLo < c then resHi + 1 else resHi, resLo)

/-- `BigNumWordAddMulCarry`: the high and the low word of `c + a * b + carry`. -/
def bigNumWordAddMulCarry (c a b carry : BitVec width) : BitVec width × BitVec width :=
  let (mulResHi, sum) := bigNumWordAddMul c a b
  let mulResLo := sum + carry
  (if mulResLo < carry then mulResHi + 1 else mulResHi, mulResLo)

structure RowTail (width : Nat) where
  stored : List (BitVec width)
  curMulHi : BitVec width
  curMontHi : BitVec width

def montMulRowLoop (aWord tFirst : BitVec width) :
    List (BitVec width) → List (BitVec width) → List (BitVec width) →
      BitVec width → BitVec width → RowTail width
  | c :: result, b :: bs, n :: ns, curMulHi, curMontHi =>
    let mul := bigNumWordAddMulCarry c aWord b curMulHi
    let mont := bigNumWordAddMulCarry mul.2 tFirst n curMontHi
    let rest := montMulRowLoop aWord tFirst result bs ns mul.1 mont.1
    { rest with stored := mont.2 :: rest.stored }
  | _, _, _, curMulHi, curMontHi => ⟨[], curMulHi, curMontHi⟩

def rowFactor (result : List (BitVec width)) (aWord : BitVec width) (b : List (BitVec width))
    (n0Inv : BitVec width) : BitVec width :=
  (bigNumWordAddMul (result.headD 0) aWord (b.headD 0)).2 * n0Inv

def montMulRowTail (result : List (BitVec width)) (aWord : BitVec width)
    (b n : List (BitVec width)) (n0Inv : BitVec width) : RowTail width :=
  let mul := bigNumWordAddMul (result.headD 0) aWord (b.headD 0)
  let tFirst := rowFactor result aWord b n0Inv
  let mont := bigNumWordAddMul mul.2 tFirst (n.headD 0)
  montMulRowLoop aWord tFirst result.tail b.tail n.tail mul.1 mont.1

def bigNumMontMulRow (result : List (BitVec width)) (aWord : BitVec width)
    (b n : List (BitVec width)) (n0Inv : BitVec width) : List (BitVec width) :=
  let tail := montMulRowTail result aWord b n n0Inv
  let curMulLo := tail.curMulHi + tail.curMontHi
  let row := tail.stored ++ [curMulLo]
  if curMulLo < tail.curMulHi then bigNumSub row n else row

def bigNumMontMul (a b n : List (BitVec width)) (n0Inv : BitVec width) : List (BitVec width) :=
  a.foldl (fun result aWord => bigNumMontMulRow result aWord b n n0Inv)
    (replicate n.length (BitVec.ofNat width 0))

/-- `BigNumMontMul` into the buffer of its multiplier: clearing the result clears the
multiplier too, and every row reads the row before it in its place. -/
def bigNumMontMulOntoB (a n : List (BitVec width)) (n0Inv : BitVec width) : List (BitVec width) :=
  a.foldl (fun result aWord => bigNumMontMulRow result aWord result n n0Inv)
    (replicate n.length (BitVec.ofNat width 0))

def montMulRow0Loop (tFirst : BitVec width) :
    List (BitVec width) → List (BitVec width) → BitVec width → List (BitVec width) × BitVec width
  | c :: result, n :: ns, curMontHi =>
    let mont := bigNumWordAddMulCarry c tFirst n curMontHi
    let rest := montMulRow0Loop tFirst result ns mont.1
    (mont.2 :: rest.1, rest.2)
  | _, _, curMontHi => ([], curMontHi)

def bigNumMontMulRow0 (result n : List (BitVec width)) (n0Inv : BitVec width) :
    List (BitVec width) :=
  let tFirst := result.headD 0 * n0Inv
  let mont := bigNumWordAddMul (result.headD 0) tFirst (n.headD 0)
  let tail := montMulRow0Loop tFirst result.tail n.tail mont.1
  tail.1 ++ [tail.2]

def bigNumMontMul1 (a n : List (BitVec width)) (n0Inv : BitVec width) : List (BitVec width) :=
  Nat.iterate (fun result => bigNumMontMulRow0 result n n0Inv) (n.length - 1)
    (bigNumMontMulRow (replicate n.length (BitVec.ofNat width 0)) 1 a n n0Inv)

def squareTwice (n : List (BitVec width)) (n0Inv : BitVec width) (aTmp : List (BitVec width)) :
    List (BitVec width) :=
  let result := bigNumMontMul aTmp aTmp n n0Inv
  bigNumMontMul result result n n0Inv

def bigNumPowMod (a : List (BitVec width)) (b : Nat) (n : List (BitVec width))
    (n0Inv : BitVec width) (rSqrMod : List (BitVec width)) : Option (List (BitVec width)) :=
  if b ≠ 0x10001 ∧ b ≠ 3 then none
  else
    let aTmp := bigNumMontMul a rSqrMod n n0Inv
    let result :=
      if b = 0x10001 then
        bigNumMontMul (Nat.iterate (squareTwice n n0Inv) 8 aTmp) a n n0Inv
      else
        let square := bigNumMontMul aTmp aTmp n n0Inv
        -- `ATmp = MM (Result, ATmp)`
        bigNumMontMul1 (bigNumMontMulOntoB square n n0Inv) n n0Inv
    some (if bigNumCmp result n n.length ≠ .lt then bigNumSub result n else result)

section Carries

/-- A carry test by comparison: the sum of two words and one more is exact where
it fits into two words. -/
theorem carry_value (hi lo c : BitVec width)
    (fits : lo.toNat + 2 ^ width * hi.toNat + c.toNat < 2 ^ width * 2 ^ width) :
    (lo + c).toNat + 2 ^ width * (if lo + c < c then hi + 1 else hi).toNat =
      lo.toNat + 2 ^ width * hi.toNat + c.toNat := by
  have low := lo.isLt
  have sum : (lo + c).toNat = (lo.toNat + c.toNat) % 2 ^ width := BitVec.toNat_add ..
  by_cases stays : lo.toNat + c.toNat < 2 ^ width
  · rw [Nat.mod_eq_of_lt stays] at sum
    have notBelow : ¬ lo + c < c := by
      rw [BitVec.lt_def, sum]
      omega
    rw [if_neg notBelow, sum]
    omega
  · have wrapped : (lo + c).toNat = lo.toNat + c.toNat - 2 ^ width := by
      have c_lt := c.isLt
      rw [sum, Nat.mod_eq_sub_mod (by omega), Nat.mod_eq_of_lt (by omega)]
    have below : lo + c < c := by
      rw [BitVec.lt_def, wrapped]
      omega
    have room : hi.toNat + 1 < 2 ^ width := by
      apply Nat.lt_of_mul_lt_mul_left (a := 2 ^ width)
      rw [mul_add, mul_one]
      omega
    have next : (hi + 1).toNat = hi.toNat + 1 := by
      have one : (1 : BitVec width).toNat = 1 := by
        simp [Nat.mod_eq_of_lt (show 1 < 2 ^ width by omega)]
      rw [BitVec.toNat_add, one, Nat.mod_eq_of_lt room]
    rw [if_pos below, next, wrapped, mul_add, mul_one]
    omega

theorem addMul_lt {base c a b carry : Nat} (cBound : c < base) (aBound : a < base)
    (bBound : b < base) (carryBound : carry < base) : c + a * b + carry < base * base := by
  obtain ⟨top, rfl⟩ : ∃ top, base = top + 1 := ⟨base - 1, by omega⟩
  have product : a * b ≤ top * top := Nat.mul_le_mul (by omega) (by omega)
  calc c + a * b + carry ≤ top + top * top + top := by omega
    _ < (top + 1) * (top + 1) := by
        have expanded : (top + 1) * (top + 1) = top + top * top + top + 1 := by ring
        omega

theorem bigNumWordAddMul_value (c a b : BitVec width) :
    (bigNumWordAddMul c a b).2.toNat + 2 ^ width * (bigNumWordAddMul c a b).1.toNat =
      c.toNat + a.toNat * b.toNat := by
  have product := bigNumWordMul_value a b
  have bound := addMul_lt c.isLt a.isLt b.isLt (Nat.two_pow_pos width)
  have carried := carry_value (bigNumWordMul a b).1 (bigNumWordMul a b).2 c
    (by rw [product]; omega)
  simp only [bigNumWordAddMul]
  rw [carried, product, add_comm]

theorem bigNumWordAddMulCarry_value (c a b carry : BitVec width) :
    (bigNumWordAddMulCarry c a b carry).2.toNat +
        2 ^ width * (bigNumWordAddMulCarry c a b carry).1.toNat =
      c.toNat + a.toNat * b.toNat + carry.toNat := by
  have product := bigNumWordAddMul_value c a b
  have bound := addMul_lt c.isLt a.isLt b.isLt carry.isLt
  have carried := carry_value (bigNumWordAddMul c a b).1 (bigNumWordAddMul c a b).2 carry
    (by rw [product]; exact bound)
  simp only [bigNumWordAddMulCarry]
  rw [carried, product]

end Carries

section Rows

def RowTail.total (tail : RowTail width) : Nat :=
  value tail.stored +
    capacity width tail.stored.length * (tail.curMulHi.toNat + tail.curMontHi.toNat)

variable (aWord tFirst : BitVec width)

theorem montMulRowLoop_length {result b n : List (BitVec width)} (multiplier : b.length = result.length)
    (modulus : n.length = result.length) (curMulHi curMontHi : BitVec width) :
    (montMulRowLoop aWord tFirst result b n curMulHi curMontHi).stored.length = result.length := by
  induction result generalizing b n curMulHi curMontHi with
  | nil => simp [montMulRowLoop]
  | cons c result ih =>
    cases b with
    | nil => cases multiplier
    | cons word b =>
      cases n with
      | nil => cases modulus
      | cons word' n =>
        simp only [montMulRowLoop, length_cons]
        rw [ih (Nat.succ.inj multiplier) (Nat.succ.inj modulus)]

theorem montMulRowLoop_value {result b n : List (BitVec width)} (multiplier : b.length = result.length)
    (modulus : n.length = result.length) (curMulHi curMontHi : BitVec width) :
    (montMulRowLoop aWord tFirst result b n curMulHi curMontHi).total =
      value result + aWord.toNat * value b + tFirst.toNat * value n +
        (curMulHi.toNat + curMontHi.toNat) := by
  induction result generalizing b n curMulHi curMontHi with
  | nil =>
    cases b with
    | nil =>
      cases n with
      | nil => simp [montMulRowLoop, RowTail.total, capacity]
      | cons word n => cases modulus
    | cons word b => cases multiplier
  | cons c result ih =>
    cases b with
    | nil => cases multiplier
    | cons word b =>
      cases n with
      | nil => cases modulus
      | cons word' n =>
        have mul := bigNumWordAddMulCarry_value c aWord word curMulHi
        simp only [montMulRowLoop]
        generalize bigNumWordAddMulCarry c aWord word curMulHi = mulWords at mul ⊢
        have mont := bigNumWordAddMulCarry_value mulWords.2 tFirst word' curMontHi
        have rest := ih (Nat.succ.inj multiplier) (Nat.succ.inj modulus) mulWords.1
          (bigNumWordAddMulCarry mulWords.2 tFirst word' curMontHi).1
        simp only [RowTail.total, value_cons, length_cons, capacity_succ] at rest ⊢
        have scaled := congrArg (2 ^ width * ·) rest
        linarith

/-- What a row does: `exact` is the sum without its lowest word, and the row is
`exact` unless that needs another word, in which case it is one modulus less. -/
structure RowExact (result : List (BitVec width)) (aWord : BitVec width)
    (b n : List (BitVec width)) (n0Inv : BitVec width) (exact : Nat) : Prop where
  total : 2 ^ width * exact = value result + aWord.toNat * value b +
    (rowFactor result aWord b n0Inv).toNat * value n
  bound : exact < capacity width n.length + value n
  length : (bigNumMontMulRow result aWord b n n0Inv).length = n.length
  kept : exact < capacity width n.length →
    value (bigNumMontMulRow result aWord b n n0Inv) = exact
  reduced : capacity width n.length ≤ exact →
    value (bigNumMontMulRow result aWord b n n0Inv) = exact - value n

theorem factor_clears {n0Inv word lo : BitVec width} (inverse : n0Inv * word = -1) :
    (bigNumWordAddMul lo (lo * n0Inv) word).2.toNat = 0 := by
  have low : (bigNumWordAddMul lo (lo * n0Inv) word).2 = lo + lo * n0Inv * word := by
    apply BitVec.eq_of_toNat_eq
    have total := congrArg (· % 2 ^ width) (bigNumWordAddMul_value lo (lo * n0Inv) word)
    simp only [Nat.add_mul_mod_self_left] at total
    rw [Nat.mod_eq_of_lt (BitVec.isLt _)] at total
    rw [total, BitVec.toNat_add, BitVec.toNat_mul (lo * n0Inv), Nat.add_mod_mod]
  have zero : lo + lo * n0Inv * word = 0 := by
    rw [BitVec.mul_assoc, inverse]
    grind
  rw [low, zero]
  exact BitVec.toNat_zero

theorem row_bound {base cap result aWord b tFirst n exact : Nat} (positive : 0 < base)
    (total : base * exact = result + aWord * b + tFirst * n) (resultBound : result < cap)
    (bBound : b ≤ cap) (aBound : aWord < base) (tBound : tFirst < base) : exact < cap + n := by
  apply Nat.lt_of_mul_lt_mul_left (a := base)
  obtain ⟨top, rfl⟩ : ∃ top, base = top + 1 := ⟨base - 1, by omega⟩
  have multiples : aWord * b ≤ top * cap := Nat.mul_le_mul (by omega) bBound
  have moduli : tFirst * n ≤ top * n := Nat.mul_le_mul_right n (by omega)
  rw [total]
  calc result + aWord * b + tFirst * n < cap + top * cap + top * n := by omega
    _ ≤ (top + 1) * (cap + n) := by
        have expanded : (top + 1) * (cap + n) = cap + top * cap + top * n + n := by ring
        omega

/-- The top word of a row is the sum of the two carries, and the comparison tells
whether that sum needs another word. -/
theorem topWord_value (stored : List (BitVec width)) (curMulHi curMontHi : BitVec width) :
    (RowTail.mk stored curMulHi curMontHi).total = value (stored ++ [curMulHi + curMontHi]) +
        if curMulHi + curMontHi < curMulHi then capacity width (stored.length + 1) else 0 := by
  have sum : (curMulHi + curMontHi).toNat = (curMulHi.toNat + curMontHi.toNat) % 2 ^ width :=
    BitVec.toNat_add ..
  have left := curMulHi.isLt
  have right := curMontHi.isLt
  rw [RowTail.total, value_append, value_cons, value_nil, mul_zero, add_zero, capacity_succ]
  by_cases stays : curMulHi.toNat + curMontHi.toNat < 2 ^ width
  · rw [Nat.mod_eq_of_lt stays] at sum
    have notBelow : ¬ curMulHi + curMontHi < curMulHi := by
      rw [BitVec.lt_def, sum]
      omega
    rw [if_neg notBelow, sum, add_zero]
  · have wrapped : (curMulHi + curMontHi).toNat + 2 ^ width = curMulHi.toNat + curMontHi.toNat := by
      rw [sum, Nat.mod_eq_sub_mod (by omega), Nat.mod_eq_of_lt (by omega)]
      omega
    have below : curMulHi + curMontHi < curMulHi := by
      rw [BitVec.lt_def]
      omega
    rw [if_pos below, ← wrapped]
    ring

theorem montMulRowTail_length {result b n : List (BitVec width)} (aWord n0Inv : BitVec width)
    (resultLength : result.length = n.length) (multiplier : b.length = n.length) :
    (montMulRowTail result aWord b n n0Inv).stored.length = n.length - 1 := by
  have rest : n.tail.length = result.tail.length := by simp [resultLength]
  have rest' : b.tail.length = result.tail.length := by simp [resultLength, multiplier]
  rw [montMulRowTail, montMulRowLoop_length _ _ rest' rest, length_tail, resultLength]

theorem montMulRowTail_value {result b n : List (BitVec width)} {n0Inv : BitVec width}
    (aWord : BitVec width) (some : n ≠ []) (resultLength : result.length = n.length)
    (multiplier : b.length = n.length) (inverse : n0Inv * n.headD 0 = -1) :
    2 ^ width * (montMulRowTail result aWord b n n0Inv).total =
      value result + aWord.toNat * value b + (rowFactor result aWord b n0Inv).toNat * value n := by
  cases n with
  | nil => exact absurd rfl some
  | cons word n =>
    cases result with
    | nil => cases resultLength
    | cons c result =>
      cases b with
      | nil => cases multiplier
      | cons word' b =>
        have rest : n.length = result.length := (Nat.succ.inj resultLength).symm
        have rest' : b.length = result.length := (Nat.succ.inj multiplier).trans rest
        have mul := bigNumWordAddMul_value c aWord word'
        have mont := bigNumWordAddMul_value (bigNumWordAddMul c aWord word').2
          (rowFactor (c :: result) aWord (word' :: b) n0Inv) word
        rw [show (bigNumWordAddMul (bigNumWordAddMul c aWord word').2
            (rowFactor (c :: result) aWord (word' :: b) n0Inv) word).2.toNat = 0 from
          factor_clears inverse, zero_add] at mont
        simp only [montMulRowTail, headD_cons, tail_cons]
        rw [montMulRowLoop_value aWord _ rest' rest, value_cons, value_cons, value_cons]
        linarith

theorem bigNumMontMulRow_exact (wide : 0 < width) {result b n : List (BitVec width)}
    {n0Inv : BitVec width} (aWord : BitVec width) (some : n ≠ [])
    (resultLength : result.length = n.length) (multiplier : b.length = n.length)
    (inverse : n0Inv * n.headD 0 = -1) :
    ∃ exact, RowExact result aWord b n n0Inv exact := by
  have total := montMulRowTail_value aWord some resultLength multiplier inverse
  have tailLength := montMulRowTail_length aWord n0Inv resultLength multiplier
  generalize tailEq : montMulRowTail result aWord b n n0Inv = tail at total tailLength
  have positive : 0 < n.length := length_pos_iff.mpr some
  have rowLength : (tail.stored ++ [tail.curMulHi + tail.curMontHi]).length = n.length := by
    rw [length_append, length_singleton, tailLength]
    omega
  have top := topWord_value tail.stored tail.curMulHi tail.curMontHi
  rw [show tail.stored.length + 1 = n.length by omega] at top
  generalize exactEq : tail.total = exact at total top
  have rowBound := value_lt (tail.stored ++ [tail.curMulHi + tail.curMontHi])
  rw [rowLength] at rowBound
  have bound : exact < capacity width n.length + value n := by
    have resultBound := value_lt result
    have bBound := value_lt b
    rw [resultLength] at resultBound
    rw [multiplier] at bBound
    exact row_bound (Nat.two_pow_pos width) total resultBound (le_of_lt bBound) aWord.isLt
      (BitVec.isLt _)
  have rowEq : bigNumMontMulRow result aWord b n n0Inv =
      if tail.curMulHi + tail.curMontHi < tail.curMulHi then
        bigNumSub (tail.stored ++ [tail.curMulHi + tail.curMontHi]) n
      else tail.stored ++ [tail.curMulHi + tail.curMontHi] := by
    rw [bigNumMontMulRow, tailEq]
  refine ⟨exact, total, bound, ?_, ?_, ?_⟩
  · rw [rowEq]
    split
    · rw [bigNumSub_length rowLength, rowLength]
    · exact rowLength
  · intro fits
    have stays : ¬ tail.curMulHi + tail.curMontHi < tail.curMulHi := by
      intro overflow
      rw [if_pos overflow] at top
      omega
    rw [rowEq, if_neg stays, top, if_neg stays, add_zero]
  · intro overflows
    have wrapped : tail.curMulHi + tail.curMontHi < tail.curMulHi := by
      by_contra stays
      rw [if_neg stays] at top
      omega
    rw [if_pos wrapped] at top
    have borrowed := bigNumSub_value_wrapped wide rowLength
      (show value (tail.stored ++ [tail.curMulHi + tail.curMontHi]) < value n by omega)
    rw [rowLength] at borrowed
    rw [rowEq, if_pos wrapped]
    omega

namespace RowExact
variable {result b n : List (BitVec width)} {aWord n0Inv : BitVec width} {exact : Nat}

theorem le (row : RowExact result aWord b n n0Inv exact) :
    value (bigNumMontMulRow result aWord b n n0Inv) ≤ exact := by
  by_cases fits : exact < capacity width n.length
  · exact (row.kept fits).le
  · rw [row.reduced (Nat.le_of_not_lt fits)]
    exact Nat.sub_le _ _

theorem modEq (row : RowExact result aWord b n n0Inv exact) :
    2 ^ width * value (bigNumMontMulRow result aWord b n n0Inv) ≡
      value result + aWord.toNat * value b [MOD value n] := by
  have residue : value (bigNumMontMulRow result aWord b n n0Inv) ≡ exact [MOD value n] := by
    by_cases fits : exact < capacity width n.length
    · rw [row.kept fits]
    · have full : capacity width n.length ≤ exact := Nat.le_of_not_lt fits
      have modulus := value_lt n
      have split : exact = (exact - value n) + value n := by omega
      rw [row.reduced full]
      conv_rhs => rw [split]
      exact (Nat.add_mod_right _ _).symm
  calc 2 ^ width * value (bigNumMontMulRow result aWord b n n0Inv)
      ≡ 2 ^ width * exact [MOD value n] := residue.mul_left _
    _ = value result + aWord.toNat * value b + (rowFactor result aWord b n0Inv).toNat * value n :=
        row.total
    _ ≡ value result + aWord.toNat * value b [MOD value n] := Nat.add_mul_mod_self_right _ _ _

theorem below (row : RowExact result aWord b n n0Inv exact)
    (start : value result < value b + value n) :
    value (bigNumMontMulRow result aWord b n n0Inv) < value b + value n := by
  refine lt_of_le_of_lt row.le ?_
  have total := row.total
  have aBound := aWord.isLt
  have tBound := (rowFactor result aWord b n0Inv).isLt
  generalize (rowFactor result aWord b n0Inv).toNat = tFirst at total tBound
  apply Nat.lt_of_mul_lt_mul_left (a := 2 ^ width)
  generalize 2 ^ width = base at total aBound tBound
  obtain ⟨top, rfl⟩ : ∃ top, base = top + 1 := ⟨base - 1, by omega⟩
  have multiples : aWord.toNat * value b ≤ top * value b := Nat.mul_le_mul_right _ (by omega)
  have moduli : tFirst * value n ≤ top * value n := Nat.mul_le_mul_right _ (by omega)
  have expanded : (top + 1) * (value b + value n) =
      value b + value n + top * value b + top * value n := by ring
  omega

end RowExact

theorem montMulRow0Loop_length (tFirst : BitVec width) {result n : List (BitVec width)}
    (modulus : n.length = result.length) (curMontHi : BitVec width) :
    (montMulRow0Loop tFirst result n curMontHi).1.length = result.length := by
  induction result generalizing n curMontHi with
  | nil => simp [montMulRow0Loop]
  | cons c result ih =>
    cases n with
    | nil => cases modulus
    | cons word n =>
      simp only [montMulRow0Loop, length_cons]
      rw [ih (Nat.succ.inj modulus)]

theorem montMulRow0Loop_value (tFirst : BitVec width) {result n : List (BitVec width)}
    (modulus : n.length = result.length) (curMontHi : BitVec width) :
    value (montMulRow0Loop tFirst result n curMontHi).1 + capacity width result.length *
        (montMulRow0Loop tFirst result n curMontHi).2.toNat =
      value result + tFirst.toNat * value n + curMontHi.toNat := by
  induction result generalizing n curMontHi with
  | nil =>
    cases n with
    | nil => simp [montMulRow0Loop, capacity]
    | cons word n => cases modulus
  | cons c result ih =>
    cases n with
    | nil => cases modulus
    | cons word n =>
      have mont := bigNumWordAddMulCarry_value c tFirst word curMontHi
      have rest := congrArg (2 ^ width * ·) (ih (Nat.succ.inj modulus)
        (bigNumWordAddMulCarry c tFirst word curMontHi).1)
      simp only [montMulRow0Loop, value_cons, length_cons, capacity_succ] at rest ⊢
      linarith

theorem bigNumMontMulRow0_length {result n : List (BitVec width)} (n0Inv : BitVec width)
    (some : n ≠ []) (resultLength : result.length = n.length) :
    (bigNumMontMulRow0 result n n0Inv).length = n.length := by
  have positive : 0 < n.length := length_pos_iff.mpr some
  have rest : n.tail.length = result.tail.length := by simp [resultLength]
  simp only [bigNumMontMulRow0, length_append, length_singleton]
  rw [montMulRow0Loop_length _ rest, length_tail]
  omega

theorem bigNumMontMulRow0_value {result n : List (BitVec width)} {n0Inv : BitVec width}
    (some : n ≠ []) (resultLength : result.length = n.length) (inverse : n0Inv * n.headD 0 = -1) :
    2 ^ width * value (bigNumMontMulRow0 result n n0Inv) =
      value result + (result.headD 0 * n0Inv).toNat * value n := by
  cases n with
  | nil => exact absurd rfl some
  | cons word n =>
    cases result with
    | nil => cases resultLength
    | cons c result =>
      have rest : n.length = result.length := (Nat.succ.inj resultLength).symm
      have mont := bigNumWordAddMul_value c (c * n0Inv) word
      rw [headD_cons] at inverse
      rw [factor_clears inverse, zero_add] at mont
      have loop := congrArg (2 ^ width * ·) (montMulRow0Loop_value (c * n0Inv) rest
        (bigNumWordAddMul c (c * n0Inv) word).1)
      have stored := montMulRow0Loop_length (c * n0Inv) rest
        (bigNumWordAddMul c (c * n0Inv) word).1
      simp only [bigNumMontMulRow0, headD_cons, tail_cons, value_append, stored,
        value_cons, value_nil, mul_zero, add_zero] at loop ⊢
      linarith

end Rows

end OpenCore.BigNumMontgomery
