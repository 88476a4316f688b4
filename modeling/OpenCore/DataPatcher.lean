import OpenCore.Base
import OpenCore.ByteBuffer

/-!
`ApplyPatch`: a pattern is searched for under a mask, from an offset on that moves behind every
window that was found, and the windows are replaced under another mask. Sizes and offsets are
32-bit. It is compared with a scan that looks at one offset after the other.
-/

namespace OpenCore.DataPatcher

open Base ByteBuffer List

structure Patch where
  pattern : Bytes
  patternMask : Option Bytes
  replace : Bytes
  replaceMask : Option Bytes
  small : pattern.length < u32
  patternMaskSize : ∀ mask ∈ patternMask, mask.length = pattern.length
  replaceSize : replace.length = pattern.length
  replaceMaskSize : ∀ mask ∈ replaceMask, mask.length = pattern.length

def Patch.patternSize (patch : Patch) : Nat := patch.pattern.length

section Source

variable (patch : Patch)

def maskedByte (index : Nat) (byte : UInt8) : Option UInt8 :=
  match patch.patternMask with
  | none => some byte
  | some mask => (mask[index]?).map (byte &&& ·)

/-- The loop over the pattern from an index on, with so many bytes left. None is an access outside
the data or one of the arrays. -/
def matchesFrom (data : Bytes) (currentOffset : Nat) : Nat → Nat → Option Bool
  | 0, _ => some true
  | left + 1, index => do
      let byte ← data[(currentOffset + index) % u32]?
      let wanted ← patch.pattern[index]?
      let masked ← maskedByte patch index byte
      if masked ≠ wanted then some false else matchesFrom data currentOffset left (index + 1)

def findFrom (data : Bytes) (lastOffset : Nat) : Nat → Nat → Option (Option Nat)
  | 0, _ => none
  | fuel + 1, currentOffset =>
    if currentOffset ≤ lastOffset then do
      let found ← matchesFrom patch data currentOffset patch.patternSize 0
      if found then some (some currentOffset)
      else findFrom data lastOffset fuel ((currentOffset + 1) % u32)
    else some none

def internalFindPattern (data : Bytes) (dataOff : Nat) : Option (Option Nat) :=
  if patch.patternSize = 0 then some none
  else
    findFrom patch data (wrapSub u32 data.length patch.patternSize) (data.length + 1) dataOff

def replaceMasked (mask : Bytes) (dataOff : Nat) : Nat → Nat → Bytes → Option Bytes
  | 0, _, data => some data
  | left + 1, index, data => do
      let old ← data[dataOff + index]?
      let new ← patch.replace[index]?
      let bits ← mask[index]?
      replaceMasked mask dataOff left (index + 1)
        (data.set (dataOff + index) ((old &&& ~~~bits) ||| (new &&& bits)))

def performReplacement (dataOff : Nat) (data : Bytes) : Option Bytes :=
  match patch.replaceMask with
  | none =>
    if dataOff + patch.patternSize ≤ data.length then
      some (data.take dataOff ++ patch.replace.take patch.patternSize ++
        data.drop (dataOff + patch.patternSize))
    else none
  | some mask => replaceMasked patch mask dataOff patch.patternSize 0 data

def replaceFrom : Nat → Nat → Nat → Nat → Nat → Bytes → Option (Nat × Bytes)
  | 0, _, _, _, _, _ => none
  | fuel + 1, count, skip, replaceCount, dataOff, data => do
      match ← internalFindPattern patch data dataOff with
      | none => some (replaceCount, data)
      | some dataOff =>
        let behind := (dataOff + patch.patternSize) % u32
        if skip > 0 then replaceFrom fuel count (skip - 1) replaceCount behind data
        else
          let data ← performReplacement patch dataOff data
          let replaceCount := (replaceCount + 1) % u32
          if count > 0 then
            if count - 1 = 0 then some (replaceCount, data)
            else replaceFrom fuel (count - 1) skip replaceCount behind data
          else replaceFrom fuel count skip replaceCount behind data

def applyPatch (data : Bytes) (count skip : Nat) : Option (Nat × Bytes) :=
  if data.length < patch.patternSize then some (0, data)
  else replaceFrom patch (data.length + 1) count skip 0 0 data

end Source

section Reference

variable (patch : Patch)

def Patch.masked (index : Nat) (byte : UInt8) : UInt8 :=
  match patch.patternMask with
  | none => byte
  | some mask => byte &&& mask.getD index 0

def Patch.mixed (index : Nat) (byte : UInt8) : UInt8 :=
  match patch.replaceMask with
  | none => patch.replace.getD index 0
  | some mask => (byte &&& ~~~mask.getD index 0) ||| (patch.replace.getD index 0 &&& mask.getD index 0)

def Matches (data : Bytes) (offset : Nat) : Prop :=
  0 < patch.patternSize ∧ offset + patch.patternSize ≤ data.length ∧
    ∀ index < patch.patternSize,
      patch.masked index (data.getD (offset + index) 0) = patch.pattern.getD index 0

instance (data : Bytes) (offset : Nat) : Decidable (Matches patch data offset) :=
  inferInstanceAs (Decidable (_ ∧ _ ∧ _))

def replaceAt (offset : Nat) (data : Bytes) : Bytes :=
  data.mapIdx fun index byte =>
    if offset ≤ index ∧ index < offset + patch.patternSize then patch.mixed (index - offset) byte
    else byte

@[simp] theorem replaceAt_length (offset : Nat) (data : Bytes) :
    (replaceAt patch offset data).length = data.length := length_mapIdx

/-- One offset after the other is looked at, and a window that was found is stepped over. The
offsets of the replaced windows are in the result. -/
def greedy (limit : Option Nat) (skip offset : Nat) (data : Bytes) : List Nat × Bytes :=
  if ends : data.length ≤ offset ∨ limit = some 0 then ([], data)
  else if window : Matches patch data offset then
    if skip = 0 then
      let later := greedy (limit.map (· - 1)) 0 (offset + patch.patternSize) (replaceAt patch offset data)
      (offset :: later.1, later.2)
    else greedy limit (skip - 1) (offset + patch.patternSize) data
  else greedy limit skip (offset + 1) data
termination_by data.length - offset
decreasing_by
  · have positive := window.1
    rw [replaceAt_length]
    omega
  · have positive := window.1
    omega
  · omega

end Reference

section Search

variable {patch : Patch} {data : Bytes}

theorem getElem?_eq_getD {bytes : Bytes} {index : Nat} (inside : index < bytes.length) :
    bytes[index]? = some (bytes.getD index 0) := by
  rw [getElem?_eq_getElem inside, List.getD, getElem?_eq_getElem inside, Option.getD_some]

theorem maskedByte_eq {index : Nat} (inside : index < patch.patternSize) (byte : UInt8) :
    maskedByte patch index byte = some (patch.masked index byte) := by
  unfold maskedByte Patch.masked
  cases given : patch.patternMask with
  | none => rfl
  | some mask =>
    have size := patch.patternMaskSize mask given
    rw [Patch.patternSize, ← size] at inside
    simp [inside]

theorem matchesFrom_eq (small : data.length < u32) {currentOffset left index : Nat}
    (inside : currentOffset + patch.patternSize ≤ data.length)
    (whole : index + left = patch.patternSize) :
    matchesFrom patch data currentOffset left index =
      some (decide (∀ later < patch.patternSize, index ≤ later →
        patch.masked later (data.getD (currentOffset + later) 0) = patch.pattern.getD later 0)) := by
  induction left generalizing index with
  | zero =>
    rw [matchesFrom, Option.some.injEq, eq_comm, decide_eq_true_eq]
    intro later below above
    omega
  | succ left ih =>
    have here : index < patch.patternSize := by omega
    have place : (currentOffset + index) % u32 = currentOffset + index := Nat.mod_eq_of_lt (by omega)
    have byte : data[currentOffset + index]? = some (data.getD (currentOffset + index) 0) :=
      getElem?_eq_getD (by omega)
    have wanted : patch.pattern[index]? = some (patch.pattern.getD index 0) := getElem?_eq_getD here
    rw [matchesFrom, place, byte, wanted]
    simp only [Option.bind_eq_bind, Option.bind_some, maskedByte_eq here]
    by_cases same : patch.masked index (data.getD (currentOffset + index) 0) = patch.pattern.getD index 0
    · rw [if_neg (not_not_intro same), ih (by omega), Option.some.injEq, decide_eq_decide]
      constructor
      · intro rest later below above
        rcases Nat.eq_or_lt_of_le above with rfl | behind
        · exact same
        · exact rest later below behind
      · exact fun all later below above => all later below (Nat.le_of_succ_le above)
    · rw [if_pos same, Option.some.injEq, eq_comm, decide_eq_false_iff_not]
      exact fun all => same (all index here (Nat.le_refl index))

theorem matchesFrom_matches (small : data.length < u32) (positive : 0 < patch.patternSize)
    {currentOffset : Nat} (inside : currentOffset + patch.patternSize ≤ data.length) :
    matchesFrom patch data currentOffset patch.patternSize 0 =
      some (decide (Matches patch data currentOffset)) := by
  rw [matchesFrom_eq small inside (zero_add _), Option.some.injEq, decide_eq_decide]
  constructor
  · exact fun all => ⟨positive, inside, fun index below => all index below (Nat.zero_le _)⟩
  · exact fun window later below _ => window.2.2 later below

def FirstWindow (patch : Patch) (data : Bytes) (offset : Nat) : Option Nat → Prop
  | none => ∀ later, offset ≤ later → ¬Matches patch data later
  | some found => offset ≤ found ∧ Matches patch data found ∧
      ∀ later, offset ≤ later → later < found → ¬Matches patch data later

theorem FirstWindow.behind {offset : Nat} {found : Option Nat} (no : ¬Matches patch data offset)
    (first : FirstWindow patch data (offset + 1) found) : FirstWindow patch data offset found := by
  cases found with
  | none =>
    intro later above
    rcases Nat.eq_or_lt_of_le above with rfl | behind
    · exact no
    · exact first later behind
  | some found =>
    obtain ⟨above, window, none⟩ := first
    refine ⟨Nat.le_of_succ_le above, window, fun later least below => ?_⟩
    rcases Nat.eq_or_lt_of_le least with rfl | behind
    · exact no
    · exact none later behind below

theorem findFrom_first (small : data.length < u32) (positive : 0 < patch.patternSize)
    (fits : patch.patternSize ≤ data.length) {fuel currentOffset : Nat} (fueled : 0 < fuel)
    (enough : data.length - patch.patternSize + 1 < fuel + currentOffset) :
    ∃ found, findFrom patch data (data.length - patch.patternSize) fuel currentOffset = some found ∧
      FirstWindow patch data currentOffset found := by
  induction fuel generalizing currentOffset with
  | zero => omega
  | succ fuel ih =>
    rw [findFrom]
    by_cases below : currentOffset ≤ data.length - patch.patternSize
    · rw [if_pos below, matchesFrom_matches small positive (by omega)]
      simp only [Option.bind_eq_bind, Option.bind_some, decide_eq_true_eq]
      by_cases window : Matches patch data currentOffset
      · rw [if_pos window]
        exact ⟨some currentOffset, rfl, Nat.le_refl _, window, fun later above before => by omega⟩
      · have next : (currentOffset + 1) % u32 = currentOffset + 1 := Nat.mod_eq_of_lt (by omega)
        rw [if_neg window, next]
        obtain ⟨found, ran, first⟩ := @ih (currentOffset + 1) (by omega) (by omega)
        exact ⟨found, ran, first.behind window⟩
    · rw [if_neg below]
      exact ⟨none, rfl, fun later above window => absurd window.2.1 (by omega)⟩

theorem internalFindPattern_first (small : data.length < u32) (fits : patch.patternSize ≤ data.length)
    (dataOff : Nat) :
    ∃ found, internalFindPattern patch data dataOff = some found ∧
      FirstWindow patch data dataOff found := by
  unfold internalFindPattern
  by_cases empty : patch.patternSize = 0
  · rw [if_pos empty]
    exact ⟨none, rfl, fun later _ window => absurd window.1 (by omega)⟩
  · rw [if_neg empty, wrapSub_of_le fits small]
    have enough : data.length - patch.patternSize + 1 < data.length + 1 + dataOff := by omega
    exact findFrom_first small (Nat.pos_of_ne_zero empty) fits (Nat.succ_pos _) enough

end Search

section Replacement

variable {patch : Patch} {data : Bytes} {offset : Nat}

theorem getElem?_replaceAt (index : Nat) :
    (replaceAt patch offset data)[index]? = data[index]?.map fun byte =>
      if offset ≤ index ∧ index < offset + patch.patternSize then patch.mixed (index - offset) byte
      else byte := by
  rw [replaceAt, getElem?_mapIdx]

theorem replaceMasked_eq {mask : Bytes} (given : patch.replaceMask = some mask) {left index : Nat}
    (inside : offset + patch.patternSize ≤ data.length)
    (whole : index + left = patch.patternSize) :
    ∃ after, replaceMasked patch mask offset left index data = some after ∧
      ∀ place, after[place]? = data[place]?.map fun byte =>
        if offset + index ≤ place ∧ place < offset + patch.patternSize then
          patch.mixed (place - offset) byte
        else byte := by
  induction left generalizing index data with
  | zero =>
    refine ⟨data, rfl, fun place => ?_⟩
    have outside : ¬(offset + index ≤ place ∧ place < offset + patch.patternSize) := by omega
    simp only [if_neg outside, Option.map_id']
  | succ left ih =>
    have here : index < patch.patternSize := by omega
    have bits := patch.replaceMaskSize mask given
    have new := patch.replaceSize
    rw [Patch.patternSize] at here
    have first : offset + index < data.length := by
      rw [Patch.patternSize] at inside
      omega
    have old := getElem?_eq_getD first
    have mixed : patch.replace[index]? = some (patch.replace.getD index 0) :=
      getElem?_eq_getD (by omega)
    have masked : mask[index]? = some (mask.getD index 0) := getElem?_eq_getD (by omega)
    rw [replaceMasked, old, mixed, masked]
    simp only [Option.bind_eq_bind, Option.bind_some]
    obtain ⟨after, ran, bytes⟩ := @ih
      (data.set (offset + index) (patch.mixed index (data.getD (offset + index) 0))) (index + 1)
      (by rw [length_set]; exact inside) (by omega)
    rw [Patch.mixed, given] at ran
    refine ⟨after, ran, fun place => ?_⟩
    rw [bytes]
    by_cases same : place = offset + index
    · subst same
      rw [getElem?_set_self first, old, Option.map_some, Option.map_some,
        if_neg (by omega), if_pos (by unfold Patch.patternSize; omega), Nat.add_sub_cancel_left]
    · rw [getElem?_set_ne (Ne.symm same)]
      congr 1
      funext byte
      by_cases behind : offset + (index + 1) ≤ place ∧ place < offset + patch.patternSize
      · rw [if_pos behind, if_pos (by omega)]
      · rw [if_neg behind, if_neg (by omega)]

theorem performReplacement_eq (inside : offset + patch.patternSize ≤ data.length) :
    performReplacement patch offset data = some (replaceAt patch offset data) := by
  unfold performReplacement
  cases given : patch.replaceMask with
  | none =>
    dsimp only
    rw [if_pos inside, Option.some.injEq]
    have front : (data.take offset).length = offset := by
      rw [length_take]
      omega
    have middle : (patch.replace.take patch.patternSize).length = patch.patternSize := by
      rw [length_take, patch.replaceSize, Patch.patternSize, Nat.min_self]
    apply ext_getElem?
    intro place
    rw [getElem?_replaceAt, append_assoc]
    by_cases before : place < offset
    · rw [getElem?_append_left (by omega), getElem?_take_of_lt before]
      have outside : ¬(offset ≤ place ∧ place < offset + patch.patternSize) := by omega
      simp only [if_neg outside, Option.map_id']
    · rw [getElem?_append_right (by omega), front]
      by_cases within : place < offset + patch.patternSize
      · have inReplace : place - offset < patch.replace.length := by
          rw [patch.replaceSize]
          unfold Patch.patternSize at within
          omega
        rw [getElem?_append_left (by omega), getElem?_take_of_lt (by omega),
          getElem?_eq_getD inReplace, getElem?_eq_getD (by omega), Option.map_some,
          if_pos ⟨Nat.le_of_not_lt before, within⟩, Patch.mixed, given]
      · rw [getElem?_append_right (by omega), middle, getElem?_drop]
        have outside : ¬(offset ≤ place ∧ place < offset + patch.patternSize) := by omega
        have same : offset + patch.patternSize + (place - offset - patch.patternSize) = place := by
          omega
        simp only [if_neg outside, same, Option.map_id']
  | some mask =>
    obtain ⟨after, ran, bytes⟩ := replaceMasked_eq given inside (zero_add _)
    dsimp only
    rw [ran, Option.some.injEq]
    apply ext_getElem?
    intro place
    rw [bytes, getElem?_replaceAt, add_zero]

end Replacement

section Greedy

variable {patch : Patch}
variable {limit : Option Nat}

theorem greedy_none (limit : Option Nat) (skip : Nat) {offset : Nat} {data : Bytes}
    (none : ∀ later, offset ≤ later → ¬Matches patch data later) :
    greedy patch limit skip offset data = ([], data) := by
  induction left : data.length - offset generalizing offset with
  | zero =>
    rw [greedy, dif_pos (.inl (by omega))]
  | succ left ih =>
    rw [greedy]
    by_cases ends : data.length ≤ offset ∨ limit = some 0
    · rw [dif_pos ends]
    · rw [dif_neg ends, dif_neg (none offset (Nat.le_refl _))]
      exact ih (fun later above => none later (Nat.le_of_succ_le above)) (by omega)

theorem greedy_skip (skip : Nat) {offset found : Nat} {data : Bytes}
    (more : limit ≠ some 0) (above : offset ≤ found) (inside : found < data.length)
    (none : ∀ later, offset ≤ later → later < found → ¬Matches patch data later) :
    greedy patch limit skip offset data = greedy patch limit skip found data := by
  induction left : found - offset generalizing offset with
  | zero =>
    have same : offset = found := by omega
    rw [same]
  | succ left ih =>
    have ends : ¬(data.length ≤ offset ∨ limit = some 0) := by
      rw [not_or]
      exact ⟨by omega, more⟩
    rw [greedy, dif_neg ends, dif_neg (none offset (Nat.le_refl _) (by omega))]
    exact ih (by omega) (fun later least below => none later (Nat.le_of_succ_le least) below) (by omega)

theorem greedy_window (skip : Nat) {offset : Nat} {data : Bytes}
    (more : limit ≠ some 0) (window : Matches patch data offset) :
    greedy patch limit skip offset data = if skip = 0 then
        (offset :: (greedy patch (limit.map (· - 1)) 0 (offset + patch.patternSize)
            (replaceAt patch offset data)).1,
          (greedy patch (limit.map (· - 1)) 0 (offset + patch.patternSize)
            (replaceAt patch offset data)).2)
      else greedy patch limit (skip - 1) (offset + patch.patternSize) data := by
  have ends : ¬(data.length ≤ offset ∨ limit = some 0) := by
    have positive := window.1
    have inside := window.2.1
    rw [not_or]
    exact ⟨by omega, more⟩
  rw [greedy, dif_neg ends, dif_pos window]

structure Replaced (patch : Patch) (offset : Nat) (before : Bytes) (result : List Nat × Bytes) :
    Prop where
  length : result.2.length = before.length
  apart : result.1.Pairwise fun earlier later => earlier + patch.patternSize ≤ later
  inside : ∀ window ∈ result.1, offset ≤ window ∧ window + patch.patternSize ≤ before.length
  outside : ∀ index, (∀ window ∈ result.1, index < window ∨ window + patch.patternSize ≤ index) →
    result.2[index]? = before[index]?

theorem Replaced.later {offset behind : Nat} {before : Bytes} {result : List Nat × Bytes}
    (replaced : Replaced patch behind before result) (above : offset ≤ behind) :
    Replaced patch offset before result where
  length := replaced.length
  apart := replaced.apart
  inside window member :=
    ⟨Nat.le_trans above (replaced.inside window member).1, (replaced.inside window member).2⟩
  outside := replaced.outside

theorem greedy_replaced (limit : Option Nat) (skip offset : Nat) (data : Bytes) :
    Replaced patch offset data (greedy patch limit skip offset data) := by
  fun_induction greedy patch limit skip offset data with
  | case1 => exact ⟨rfl, List.Pairwise.nil, nofun, fun _ _ => rfl⟩
  | case2 limit offset data ends window later ih =>
    constructor
    · rw [ih.length, replaceAt_length]
    · exact pairwise_cons.mpr ⟨fun other member => (ih.inside other member).1, ih.apart⟩
    · intro other member
      rcases mem_cons.mp member with rfl | behind
      · exact ⟨Nat.le_refl _, window.2.1⟩
      · have bounds := ih.inside other behind
        rw [replaceAt_length] at bounds
        omega
    · intro index apart
      -- What the first replacement leaves alone, the later ones do as well.
      have here := apart offset mem_cons_self
      have outside : ¬(offset ≤ index ∧ index < offset + patch.patternSize) := by omega
      rw [ih.outside index fun other member => apart other (mem_cons_of_mem _ member),
        getElem?_replaceAt]
      simp only [if_neg outside, Option.map_id']
  | case3 limit skip offset data ends window still ih => exact ih.later (Nat.le_add_right _ _)
  | case4 limit skip offset data ends window ih => exact ih.later (Nat.le_succ _)

end Greedy

section Patching

variable {patch : Patch}

def limitOf (count : Nat) : Option Nat := if count = 0 then none else some count

theorem limitOf_ne (count : Nat) : limitOf count ≠ some 0 := by
  unfold limitOf
  split
  · exact nofun
  · next positive => simpa using positive

theorem limitOf_pred (count : Nat) : (limitOf count).map (· - 1) =
    if count = 1 then some 0 else limitOf (count - 1) := by
  unfold limitOf
  by_cases none : count = 0
  · subst none
    rfl
  · by_cases one : count = 1
    · subst one
      rfl
    · rw [if_neg none, if_neg one, if_neg (by omega), Option.map_some]

theorem replaceFrom_found {fuel count skip replaceCount dataOff found : Nat} {data : Bytes}
    (small : data.length < u32) (few : replaceCount + 1 < u32)
    (searched : internalFindPattern patch data dataOff = some (some found))
    (window : Matches patch data found) :
    replaceFrom patch (fuel + 1) count skip replaceCount dataOff data = if skip > 0 then
        replaceFrom patch fuel count (skip - 1) replaceCount (found + patch.patternSize) data
      else if count = 1 then some (replaceCount + 1, replaceAt patch found data)
      else
        replaceFrom patch fuel (count - 1) 0 (replaceCount + 1) (found + patch.patternSize)
          (replaceAt patch found data) := by
  have inside := window.2.1
  have behind : (found + patch.patternSize) % u32 = found + patch.patternSize :=
    Nat.mod_eq_of_lt (by omega)
  rw [replaceFrom, searched]
  simp only [Option.bind_eq_bind, Option.bind_some, behind, Nat.mod_eq_of_lt few]
  by_cases skips : skip > 0
  · rw [if_pos skips, if_pos skips]
  · have spent : skip = 0 := by omega
    rw [if_neg skips, if_neg skips, performReplacement_eq inside, Option.bind_some, spent]
    by_cases one : count = 1
    · subst one
      rfl
    · rw [if_neg one]
      by_cases counts : count > 0
      · rw [if_pos counts, if_neg (by omega)]
      · have zero : count = 0 := by omega
        rw [if_neg counts, zero]

theorem replaceFrom_eq {fuel count skip replaceCount dataOff : Nat} {data : Bytes}
    (small : data.length < u32) (fits : patch.patternSize ≤ data.length)
    (enough : data.length < fuel + dataOff) (within : dataOff ≤ data.length)
    (few : replaceCount ≤ dataOff) :
    replaceFrom patch fuel count skip replaceCount dataOff data =
      some (replaceCount + (greedy patch (limitOf count) skip dataOff data).1.length,
        (greedy patch (limitOf count) skip dataOff data).2) := by
  induction fuel generalizing count skip replaceCount dataOff data with
  | zero => omega
  | succ fuel ih =>
    obtain ⟨found, searched, first⟩ := internalFindPattern_first small fits dataOff
    cases found with
    | none =>
      rw [replaceFrom, searched, greedy_none _ _ first]
      rfl
    | some found =>
      obtain ⟨above, window, none⟩ := first
      have positive := window.1
      have inside := window.2.1
      have more := limitOf_ne count
      have length := replaceAt_length patch found data
      -- The scan passes every offset in front of the window that the search finds.
      rw [greedy_skip skip more above (by omega) none, greedy_window skip more window,
        replaceFrom_found small (by omega) searched window]
      by_cases skips : skip = 0
      · rw [if_neg (by omega), if_pos skips, limitOf_pred, length_cons]
        by_cases one : count = 1
        · have stops : greedy patch (some 0) 0 (found + patch.patternSize)
              (replaceAt patch found data) = ([], replaceAt patch found data) := by
            rw [greedy, dif_pos (.inr rfl)]
          rw [if_pos one, if_pos one, stops]
          rfl
        · rw [if_neg one, if_neg one, ih (by omega) (by omega) (by omega) (by omega) (by omega),
            add_assoc, add_comm 1]
      · rw [if_pos (Nat.pos_of_ne_zero skips), if_neg skips]
        exact ih small fits (by omega) inside (by omega)

theorem applyPatch_eq (patch : Patch) {data : Bytes} (small : data.length < u32) (count skip : Nat) :
    applyPatch patch data count skip = some ((greedy patch (limitOf count) skip 0 data).1.length,
        (greedy patch (limitOf count) skip 0 data).2) := by
  unfold applyPatch
  by_cases short : data.length < patch.patternSize
  · have none : ∀ later, 0 ≤ later → ¬Matches patch data later := fun later _ window =>
      absurd window.2.1 (by omega)
    rw [if_pos short, greedy_none _ _ none]
    rfl
  · rw [if_neg short, replaceFrom_eq small (Nat.le_of_not_lt short) (by omega) (Nat.zero_le _)
      (Nat.le_refl 0), zero_add]

/-- `ApplyPatch` reads no byte outside its arrays, replaces what the scan replaces, and changes
nothing outside the replaced windows. -/
theorem applyPatch_greedy (patch : Patch) (data : Bytes) (small : data.length < u32)
    (count skip : Nat) :
    ∃ windows after, greedy patch (limitOf count) skip 0 data = (windows, after) ∧
      applyPatch patch data count skip = some (windows.length, after) ∧
      Replaced patch 0 data (windows, after) :=
  ⟨_, _, rfl, applyPatch_eq patch small count skip, greedy_replaced _ _ _ _⟩

def secondOne : Patch where
  pattern := [1]
  patternMask := some [0x0F]
  replace := [0x79]
  replaceMask := some [0xF0]
  small := by decide
  patternMaskSize := by simp
  replaceSize := rfl
  replaceMaskSize := by simp

theorem applyPatch_greedy_secondOne :
    ∃ windows after, greedy secondOne (limitOf 1) 1 0 [1, 2, 0x21, 1] = (windows, after) ∧
      applyPatch secondOne [1, 2, 0x21, 1] 1 1 = some (windows.length, after) ∧
      Replaced secondOne 0 [1, 2, 0x21, 1] (windows, after) :=
  applyPatch_greedy secondOne [1, 2, 0x21, 1] (by decide) 1 1

example : applyPatch secondOne [1, 2, 0x21, 1] 1 1 = some (1, [1, 2, 0x71, 1]) := by decide

end Patching

end OpenCore.DataPatcher
