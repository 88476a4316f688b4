import OpenCore.Base
import OpenCore.BigNumShifts

/-!
`BigNumMod` and the shifts it calls, with what they check and touch. The remainder
is found by long division in binary: `BigDiv` starts as the divisor moved up to the
length of the dividend, is subtracted from `ModTmp` where it fits, and is moved down
until it is the divisor again. Next to the values, a run keeps a log of the
assertions and of the words that are read or written.
-/

namespace OpenCore.BigNumMod

open BigNumPrimitives

inductive Buffer where
  | modulus
  | rSqrMod
  | scratch
  deriving DecidableEq

inductive Check where
  | assert (holds : Bool)
  | access (buffer : Buffer) (offset count : Nat)
  deriving DecidableEq

structure Pointer where
  buffer : Buffer
  offset : Nat
  deriving DecidableEq

def Pointer.words (pointer : Pointer) (first count : Nat) : Check :=
  .access pointer.buffer (pointer.offset + first) count

section ShiftChecks

def leftShiftWordsChecks (result : Pointer) (numWordsResult : Nat) (a : Pointer)
    (numWordsA exponent : Nat) : List Check :=
  [.assert (0 < numWordsResult), .assert (0 < numWordsA), .assert (exponent < numWordsResult),
    .assert (numWordsA ≤ numWordsResult - exponent),
    a.words 0 (numWordsResult - exponent), result.words exponent (numWordsResult - exponent),
    result.words 0 exponent] ++
  if numWordsResult - exponent > numWordsA then
    [result.words (numWordsA + exponent) (numWordsResult - exponent - numWordsA)] else []

def leftShiftWordsAndBitsChecks (width : Nat) (result : Pointer) (numWordsResult : Nat)
    (a : Pointer) (numWordsA numWords numBits : Nat) : List Check :=
  [.assert (0 < numWordsResult), .assert (0 < numWordsA),
    .assert (numWordsResult = numWordsA + numWords + 1), .assert (0 < numBits),
    .assert (numBits < width), .assert (0 < numWords),
    a.words 0 numWordsA, result.words numWords (numWordsA + 1), result.words 0 numWords]

def leftShiftChecks (width : Nat) (result : Pointer) (numWordsResult : Nat) (a : Pointer)
    (numWordsA exponent : Nat) : List Check :=
  let numWords := exponent / width
  let numBits := exponent % width
  [.assert (0 < numWordsResult), .assert (0 < numWordsA)] ++
    if numBits ≠ 0 then
      leftShiftWordsAndBitsChecks width result numWordsResult a numWordsA numWords numBits
    else leftShiftWordsChecks result numWordsResult a numWordsA numWords

def rightShiftWordsChecks (result : Pointer) (numWordsResult : Nat) (a : Pointer)
    (numWordsA exponent : Nat) : List Check :=
  [.assert (0 < numWordsResult), .assert (0 < numWordsA), .assert (exponent < numWordsResult),
    .assert (numWordsA ≤ numWordsResult - exponent),
    a.words exponent (numWordsResult - exponent), result.words 0 (numWordsResult - exponent),
    result.words (numWordsResult - exponent) exponent]

def rightShiftBitsSmallChecks (width : Nat) (a : Pointer) (numWords exponent : Nat) : List Check :=
  [.assert (0 < numWords), .assert (0 < exponent), .assert (exponent < width), a.words 0 numWords]

def rightShiftWordsAndBitsChecks (width : Nat) (result : Pointer) (numWordsResult : Nat)
    (a : Pointer) (numWordsA numWords numBits : Nat) : List Check :=
  [.assert (0 < numWordsResult), .assert (0 < numWordsA), .assert (numWords ≤ numWordsA),
    .assert (0 < numBits), .assert (numBits < width),
    .assert (numWordsResult ≤ numWordsA - numWords),
    a.words numWords (numWordsA - numWords), result.words 0 (numWordsA - numWords),
    result.words (numWordsA - numWords) (numWordsResult - (numWordsA - numWords))]

def rightShiftChecks (width : Nat) (result : Pointer) (numWordsResult : Nat) (a : Pointer)
    (numWordsA exponent : Nat) : List Check :=
  let numWords := exponent / width
  let numBits := exponent % width
  [.assert (0 < numWordsResult), .assert (0 < numWordsA)] ++
    if numBits ≠ 0 then
      rightShiftWordsAndBitsChecks width result numWordsResult a numWordsA numWords numBits
    else rightShiftWordsChecks result numWordsResult a numWordsA numWords

end ShiftChecks

variable {width : Nat}

structure ModState (width : Nat) where
  modTmp : List (BitVec width)
  sigWordsModTmp : Nat
  bigDiv : List (BitVec width)
  bigDivExp : Nat
  sigWordsBigDiv : Nat
  sigBitsBigDiv : Nat
  checks : List Check

def ModState.log (state : ModState width) (checks : List Check) : ModState width :=
  { state with checks := state.checks ++ checks }

structure ModCall (width : Nat) where
  b : List (BitVec width)
  bPointer : Pointer
  modPointer : Pointer
  divPointer : Pointer

section Passes
variable (call : ModCall width) (state : ModState width)

def modCompare : Ordering × List Check :=
  let lengths : Check := .assert (state.sigWordsModTmp = state.sigWordsBigDiv ∨
    state.sigWordsModTmp = state.sigWordsBigDiv + 1)
  if state.sigWordsModTmp > state.sigWordsBigDiv then
    (.gt, [lengths, call.modPointer.words (state.sigWordsModTmp - 1) 1,
      .assert (state.modTmp.getD (state.sigWordsModTmp - 1) 0 ≠ 0)])
  else
    (bigNumCmp state.modTmp state.bigDiv state.sigWordsBigDiv,
      [lengths, call.modPointer.words 0 state.sigWordsBigDiv,
        call.divPointer.words 0 state.sigWordsBigDiv])

def divisorChecks : List Check :=
  [call.divPointer.words 0 state.sigWordsBigDiv, call.bPointer.words 0 state.sigWordsBigDiv,
    .assert (bigNumCmp state.bigDiv call.b state.sigWordsBigDiv = .eq)]

def lengthCheck : Check :=
  .assert (state.sigBitsBigDiv = bigNumSignificantBits state.bigDiv state.sigWordsBigDiv)

def modReduce : ModState width × Bool :=
  let words := state.sigWordsModTmp
  let modTmp := bigNumSub (state.modTmp.take words) (state.bigDiv.take words) ++
    state.modTmp.drop words
  let reduced := { state with modTmp := modTmp }.log
    [call.modPointer.words 0 words, call.divPointer.words 0 words]
  if state.bigDivExp = 0 then (reduced.log (divisorChecks call reduced), true)
  else
    let index := bigNumMostSignificantWord modTmp words
    let sigBitsModTmp := index * width + bigNumSignificantBitsWord (modTmp.getD index 0)
    let measured := { reduced with sigWordsModTmp := index + 1 }.log
      [call.modPointer.words 0 words,
        .assert (sigBitsModTmp = bigNumSignificantBits modTmp (index + 1)),
        .assert (sigBitsModTmp ≤ state.sigBitsBigDiv)]
    let deltaBits := state.sigBitsBigDiv - sigBitsModTmp
    if deltaBits > state.bigDivExp then (measured, true)
    else
      let divWords := state.sigWordsBigDiv
      let shifted := { measured with
        bigDiv := bigNumRightShift (state.bigDiv.take divWords) deltaBits ++
          state.bigDiv.drop divWords
        sigWordsBigDiv := (sigBitsModTmp + (width - 1)) / width
        sigBitsBigDiv := sigBitsModTmp
        bigDivExp := state.bigDivExp - deltaBits }.log
        (rightShiftChecks width call.divPointer divWords call.divPointer divWords deltaBits)
      (shifted.log [lengthCheck shifted], false)

def modHalve : ModState width × Bool :=
  if state.bigDivExp = 0 then (state.log (divisorChecks call state), true)
  else
    let words := state.sigWordsBigDiv
    let halved := { state with
      bigDiv := bigNumRightShiftBitsSmall 1 (state.bigDiv.take words) ++ state.bigDiv.drop words
      sigBitsBigDiv := state.sigBitsBigDiv - 1
      bigDivExp := state.bigDivExp - 1 }.log
      (rightShiftBitsSmallChecks width call.divPointer words 1)
    let stripped :=
      if halved.sigBitsBigDiv % width = 0 then
        { halved with sigWordsBigDiv := words - 1 }.log
          [call.divPointer.words (words - 1) 1, .assert (halved.bigDiv.getD (words - 1) 0 = 0)]
      else halved
    (stripped.log [lengthCheck stripped], false)

def modPass : ModState width × Bool :=
  let (order, checks) := modCompare call state
  let compared := state.log checks
  if order ≠ .lt then modReduce call compared else modHalve call compared

end Passes

def modLoop (call : ModCall width) : Nat → ModState width → Option (ModState width)
  | 0, _ => none
  | fuel + 1, state =>
    match modPass call state with
    | (after, true) => some after
    | (after, false) => modLoop call fuel after

/-- `BigNumMod` up to the loop. `numWordsRest` is the length of the divisor. -/
def modStart (call : ModCall width) (a : List (BitVec width)) (aPointer : Pointer) :
    ModState width :=
  let numWordsA := a.length
  let numWordsRest := call.b.length
  let index := bigNumMostSignificantWord a numWordsA
  let sigBitsModTmp := index * width + bigNumSignificantBitsWord (a.getD index 0)
  let words := index + 1
  let sigBitsB := bigNumSignificantBits call.b numWordsRest
  let bigDivExp := sigBitsModTmp - sigBitsB
  let state : ModState width :=
    { modTmp := a.take words
      sigWordsModTmp := words
      bigDiv := bigNumLeftShift words call.b bigDivExp
      bigDivExp := bigDivExp
      sigWordsBigDiv := words
      sigBitsBigDiv := sigBitsModTmp
      checks := [.assert (0 < numWordsRest), .assert (0 < numWordsA),
          .assert (numWordsRest ≤ numWordsA), aPointer.words 0 numWordsA,
          .assert (sigBitsModTmp = bigNumSignificantBits a words),
          aPointer.words 0 words, call.modPointer.words 0 words,
          call.bPointer.words 0 numWordsRest, .assert (sigBitsB ≤ sigBitsModTmp)] ++
        leftShiftChecks width call.divPointer words call.bPointer numWordsRest bigDivExp }
  state.log [lengthCheck state]

/-- `BigNumMod`: the remainder and the log. The two working numbers lie one after
the other in the scratch memory. -/
def bigNumMod (fuel : Nat) (b : List (BitVec width)) (bPointer : Pointer)
    (a : List (BitVec width)) (aPointer scratch result : Pointer) :
    Option (List (BitVec width) × List Check) :=
  let words := bigNumMostSignificantWord a a.length + 1
  let call : ModCall width :=
    ⟨b, bPointer, scratch, { scratch with offset := scratch.offset + words }⟩
  (modLoop call fuel (modStart call a aPointer)).map fun final =>
    (final.modTmp.take b.length,
      final.checks ++
        [.assert (bigNumMostSignificantWord final.modTmp final.sigWordsModTmp + 1 ≤ b.length),
          scratch.words 0 b.length, result.words 0 b.length])

end OpenCore.BigNumMod
