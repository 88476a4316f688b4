import OpenCore.KextSymbols

/-!
What a lookup of a symbol finds. The flags are down before each lookup, so it goes through
the dependencies of a kext and whatever is behind them as a plain search would.
-/

namespace OpenCore.SymbolLookup

open MarkedSearch KextSymbols List

section Searches
variable {ctx : PrelinkedContext} {Found : Type}
  {look : OcGetSymbolLevel → PrelinkedKext → Option Found} {fuel address : Nat}
  {level : OcGetSymbolLevel} {processed after : Marks Nat} {found : Option Found}
variable {other : Nat}

inductive Searched (ctx : PrelinkedContext) (address : Nat) (level : OcGetSymbolLevel) :
    OcGetSymbolLevel → Nat → Prop
  | itself {other : Nat} (cxx : level = .onlyCxx)
      (linked : (ctx.kext address).linkedSymbolTable.isSome)
      (behind : Behind ctx.next .onlyCxx address other) :
      Searched ctx address level .onlyCxx other
  | direct {dependency : Nat}
      (outside : ¬(level = .onlyCxx ∧ (ctx.kext address).linkedSymbolTable.isSome))
      (member : dependency ∈ (ctx.kext address).dependencies) :
      Searched ctx address level level dependency
  | deep {dependency other : Nat}
      (outside : ¬(level = .onlyCxx ∧ (ctx.kext address).linkedSymbolTable.isSome))
      (member : dependency ∈ (ctx.kext address).dependencies) (further : level ≠ .firstLevel)
      (behind : Behind ctx.next .onlyCxx dependency other) :
      Searched ctx address level .onlyCxx other

def Idle (ctx : PrelinkedContext) (processed : Marks Nat) : Prop :=
  ∀ address ∈ ctx.prelinkedKexts, processed address = false

theorem next_mem (member : other ∈ ctx.next level address) :
    other ∈ ctx.prelinkedKexts := by
  rw [PrelinkedContext.next] at member
  split at member
  · cases member
  · exact ctx.closed address other member

theorem behind_mem (behind : Behind ctx.next .onlyCxx address other)
    (member : address ∈ ctx.prelinkedKexts) : other ∈ ctx.prelinkedKexts := by
  induction behind with
  | refl => exact member
  | tail _ step _ => exact next_mem step

theorem searchFrom_returns (enough : ctx.prelinkedKexts.length < fuel) :
    ∃ found after, searchFrom ctx look fuel address level processed = some (found, after) := by
  have closed : ∀ level, ∀ node ∈ ctx.prelinkedKexts, ∀ other ∈ ctx.next level node,
      other ∈ ctx.prelinkedKexts := fun _ _ _ _ => next_mem
  rw [searchFrom]
  split
  · rename_i itself
    have inside := ctx.cached address itself.2
    have few := unmarked_lt (processed.add address) ctx.prelinkedKexts
    obtain ⟨found, after, scan, -⟩ : ∃ found after, internalOcGetSymbolWorker ctx look fuel
      level address processed = some (found, after) ∧ _ := search_returns closed inside (by omega)
    exact ⟨found, after, scan⟩
  · exact roots_return closed (ctx.closed address) enough processed

theorem searchFrom_some {result : Found}
    (scan : searchFrom ctx look fuel address level processed = some (some result, after)) :
    ∃ lookedAt other, Searched ctx address level lookedAt other ∧
      look lookedAt (ctx.kext other) = some result := by
  rw [searchFrom] at scan
  split at scan
  · rename_i itself
    obtain ⟨rfl, linked⟩ := itself
    rcases search_some scan with here | ⟨child, step, other, behind, there⟩
    · exact ⟨_, address, .itself rfl linked .refl, here⟩
    · exact ⟨_, other, .itself rfl linked (behind.head step), there⟩
  · rename_i outside
    obtain ⟨dependency, member, before, visited⟩ := searchAll_some scan
    rcases search_some visited with here | ⟨child, step, other, behind, there⟩
    · exact ⟨_, dependency, .direct outside member, here⟩
    · rw [PrelinkedContext.next] at step
      split at step
      · cases step
      · rename_i further
        have begins : child ∈ ctx.next .onlyCxx dependency := by
          rw [PrelinkedContext.next, if_neg (by decide)]
          exact step
        exact ⟨_, other, .deep outside member further (behind.head begins), there⟩

section

variable (weaker : ∀ level kext, look level kext = none → look .onlyCxx kext = none)
  (idle : Idle ctx processed)
include weaker idle

/-- Without a result, no kext that is searched has one. At a lower level a kext shows at
least what its C++ symbols show. -/
theorem searchFrom_none
    (scan : searchFrom ctx look fuel address level processed = some (none, after))
    {lookedAt : OcGetSymbolLevel} (reached : Searched ctx address level lookedAt other) :
    look lookedAt (ctx.kext other) = none := by
  rw [searchFrom] at scan
  split at scan
  · rename_i itself
    obtain ⟨rfl, linked⟩ := itself
    have inside := ctx.cached address linked
    have alone : searchAll (internalOcGetSymbolWorker ctx look fuel .onlyCxx) [address]
        processed = some (none, after) := by
      rw [searchAll, scan]
      rfl
    have covers : Covers ctx.next
        (fun level address => look level (ctx.kext address)) .onlyCxx .onlyCxx := .refl
    cases reached with
    | itself _ _ behind =>
      refine roots_none covers ?_ alone address (mem_singleton.mpr rfl) other behind
      intro root member node behind
      rw [mem_singleton.mp member] at behind
      exact idle node (behind_mem behind inside)
    | direct outside => exact absurd ⟨rfl, linked⟩ outside
    | deep outside => exact absurd ⟨rfl, linked⟩ outside
  · rename_i outside
    cases reached with
    | itself cxx linked => exact absurd ⟨cxx, linked⟩ outside
    | direct _ member =>
      obtain ⟨before, behind, visited⟩ := searchAll_visited scan member
      rw [internalOcGetSymbolWorker] at visited
      have nothing := search_looked visited
      exact nothing
    | deep _ member further behind =>
      have covers : Covers ctx.next
          (fun level address => look level (ctx.kext address)) level .onlyCxx := by
        constructor
        · exact fun node => weaker level (ctx.kext node)
        · intro node
          rw [PrelinkedContext.next, if_neg further, PrelinkedContext.next, if_neg (by decide)]
      refine roots_none covers ?_ scan _ member other behind
      intro root member node behind
      exact idle node (behind_mem behind (ctx.closed address root member))

theorem searchFrom_iff
    (scan : searchFrom ctx look fuel address level processed = some (found, after)) :
    (∃ result, found = some result) ↔ ∃ lookedAt other, Searched ctx address level lookedAt other ∧
        ∃ result, look lookedAt (ctx.kext other) = some result := by
  constructor
  · rintro ⟨result, rfl⟩
    obtain ⟨lookedAt, other, reached, here⟩ := searchFrom_some scan
    exact ⟨lookedAt, other, reached, result, here⟩
  · rintro ⟨lookedAt, other, reached, result, here⟩
    cases found with
    | some result => exact ⟨result, rfl⟩
    | none =>
      rw [searchFrom_none weaker idle scan reached] at here
      cases here

end

theorem searchFrom_congr {other : Marks Nat} (agree : Agree ctx.prelinkedKexts processed other)
    (scan : searchFrom ctx look fuel address level processed = some (found, after)) :
    ∃ same, searchFrom ctx look fuel address level other = some (found, same) := by
  have closed : ∀ level, ∀ node ∈ ctx.prelinkedKexts, ∀ other ∈ ctx.next level node,
      other ∈ ctx.prelinkedKexts := fun _ _ _ _ => next_mem
  rw [searchFrom] at scan ⊢
  split at scan
  · rename_i itself
    rw [if_pos itself]
    obtain ⟨same, again, -⟩ := search_congr closed (ctx.cached address itself.2) agree scan
    exact ⟨same, again⟩
  · rename_i outside
    rw [if_neg outside]
    obtain ⟨same, again, -⟩ := searchAll_congr
      (fun node member _ _ agree _ _ visited =>
        search_congr closed (ctx.closed address node member) agree visited) agree scan
    exact ⟨same, again⟩

theorem unlocked_idle (processed : Marks Nat) :
    Idle ctx (internalUnlockContextKexts ctx processed) :=
  fun _ member => if_pos member

end Searches

section Runs
variable {ctx : PrelinkedContext} {fuel : Nat} {processed : Marks Nat}

inductive Flags (ctx : PrelinkedContext) (fuel : Nat) : Marks Nat → Prop
  | zeroed : Flags ctx fuel fun _ => false
  | name {before after : Marks Nat} {address : Nat} {lookupValue : AsciiString}
      {level : OcGetSymbolLevel} {found : Option KextSymbol} (earlier : Flags ctx fuel before)
      (returned : internalOcGetSymbolName ctx fuel address lookupValue level before =
        some (found, after)) : Flags ctx fuel after
  | value {before after : Marks Nat} {address lookupValue : Nat} {level : OcGetSymbolLevel}
      {found : Option (Option KextSymbol)} (earlier : Flags ctx fuel before)
      (returned : internalOcGetSymbolValue ctx fuel address lookupValue level before =
        some (found, after)) : Flags ctx fuel after

theorem map_unlocked {Found : Type} {found : Option Found} {after : Marks Nat}
    {scan : Option (Option Found × Marks Nat)}
    (returned : scan.map (unlocked ctx) = some (found, after)) :
    ∃ left, scan = some (found, left) ∧ after = internalUnlockContextKexts ctx left := by
  obtain ⟨⟨result, left⟩, same, equal⟩ := Option.map_eq_some_iff.mp returned
  cases equal
  exact ⟨left, same, rfl⟩

theorem flags_idle (flags : Flags ctx fuel processed) : Idle ctx processed := by
  induction flags with
  | zeroed => exact fun _ _ => rfl
  | name earlier returned ih =>
    rw [internalOcGetSymbolName] at returned
    split at returned
    · cases returned
      exact ih
    · obtain ⟨left, -, rfl⟩ := map_unlocked returned
      exact unlocked_idle left
  | value earlier returned _ =>
    obtain ⟨left, -, rfl⟩ := map_unlocked returned
    exact unlocked_idle left

end Runs

section Names
variable {ctx : PrelinkedContext} {fuel address : Nat} {processed : Marks Nat}
  {lookupValue : AsciiString} {level : OcGetSymbolLevel}
variable {kext : PrelinkedKext} {symbol : KextSymbol}

theorem at_of_lt {text : AsciiString} {index : Nat} (bound : index < text.chars.length) :
    text.at index = text.chars[index] := by
  rw [AsciiString.at, getD_eq_getElem?_getD, getElem?_eq_getElem bound, Option.getD_some]

theorem sameFrom_iff {name : AsciiString} {left index : Nat} :
    sameFrom name lookupValue left index = true ↔
      ∀ step, step < left → name.at (index + step) = lookupValue.at (index + step) := by
  induction left generalizing index with
  | zero => exact iff_of_true rfl fun _ clash => absurd clash (Nat.not_lt_zero _)
  | succ left ih =>
    rw [sameFrom]
    split
    · rename_i different
      refine iff_of_false Bool.false_ne_true fun all => different ?_
      exact all 0 (Nat.succ_pos left)
    · rename_i equal
      rw [ih]
      constructor
      · intro rest step bound
        cases step with
        | zero => exact not_not.mp equal
        | succ step =>
          have there := rest step (Nat.lt_of_succ_lt_succ bound)
          rwa [Nat.add_assoc, Nat.add_comm 1] at there
      · intro all step bound
        have there := all (step + 1) (Nat.succ_lt_succ bound)
        rwa [Nat.add_comm step, ← Nat.add_assoc] at there

theorem hasName_iff :
    symbol.hasName lookupValue = true ↔ symbol.name.chars = lookupValue.chars := by
  rw [KextSymbol.hasName, Bool.and_eq_true, Bool.and_eq_true, Bool.and_eq_true, beq_iff_eq,
    beq_iff_eq, beq_iff_eq, symbol.length_eq, sameFrom_iff]
  constructor
  · rintro ⟨⟨lengths, -, -⟩, all⟩
    apply ext_getElem lengths
    intro index bound boundOther
    have there := all index boundOther
    rwa [Nat.zero_add, at_of_lt bound, at_of_lt boundOther] at there
  · intro same
    have everywhere : ∀ index, symbol.name.at index = lookupValue.at index := by
      intro index
      rw [AsciiString.at, AsciiString.at, same]
    exact ⟨⟨congrArg List.length same, everywhere _, everywhere _⟩, fun _ _ => everywhere _⟩

theorem cxx_mem (member : symbol ∈ kext.part .onlyCxx) : symbol ∈ kext.part level := by
  by_cases cxx : level = .onlyCxx
  · rwa [cxx]
  · rw [PrelinkedKext.part] at member ⊢
    cases linked : kext.linkedSymbolTable with
    | none =>
      rw [linked] at member
      cases member
    | some table =>
      rw [linked] at member
      have inside : symbol ∈ table := mem_of_mem_drop (mem_of_mem_take member)
      simpa [PrelinkedKext.partStart, PrelinkedKext.partLength, cxx] using inside

theorem findName_weaker (level : OcGetSymbolLevel) (kext : PrelinkedKext)
    (nothing : findName lookupValue level kext = none) :
    findName lookupValue .onlyCxx kext = none := by
  rw [findName, find?_eq_none] at nothing ⊢
  exact fun symbol member => nothing symbol (cxx_mem member)

theorem findName_isSome :
    (∃ symbol, findName lookupValue level kext = some symbol) ↔
      ∃ symbol ∈ kext.part level, symbol.name.chars = lookupValue.chars := by
  rw [findName, ← Option.isSome_iff_exists, find?_isSome]
  simp only [hasName_iff]

def InTable (lookupValue : AsciiString) (kext : PrelinkedKext) : Prop :=
  ∃ table, kext.linkedSymbolTable = some table ∧
    ∃ symbol ∈ table, symbol.name.chars = lookupValue.chars

/-- A symbol of the name among the C++ symbols of a kext, which end the table. -/
def AmongCxx (lookupValue : AsciiString) (kext : PrelinkedKext) : Prop :=
  ∃ table, kext.linkedSymbolTable = some table ∧
    ∃ symbol ∈ table.drop (table.length - kext.numberOfCxxSymbols),
      symbol.name.chars = lookupValue.chars

theorem findName_full (full : level ≠ .onlyCxx) :
    (∃ symbol, findName lookupValue level kext = some symbol) ↔ InTable lookupValue kext := by
  rw [findName_isSome, PrelinkedKext.part, InTable]
  cases kext.linkedSymbolTable with
  | none => simp
  | some table => simp [PrelinkedKext.partStart, PrelinkedKext.partLength, full]

theorem findName_cxx :
    (∃ symbol, findName lookupValue .onlyCxx kext = some symbol) ↔ AmongCxx lookupValue kext := by
  rw [findName_isSome, PrelinkedKext.part, AmongCxx]
  cases linked : kext.linkedSymbolTable with
  | none => simp
  | some table =>
    have few := kext.cxx_le table linked
    have whole : (table.drop (table.length - kext.numberOfCxxSymbols)).length ≤
        kext.numberOfCxxSymbols := by
      rw [length_drop]
      omega
    simp [PrelinkedKext.partStart, PrelinkedKext.partLength, take_of_length_le whole]

def Reaches (ctx : PrelinkedContext) : Nat → Nat → Prop :=
  Relation.ReflTransGen fun kext dependency => dependency ∈ (ctx.kext kext).dependencies

theorem behind_eq : Behind ctx.next .onlyCxx = Reaches ctx := by
  have steps : ctx.next .onlyCxx = fun address => (ctx.kext address).dependencies :=
    funext fun _ => if_neg (by decide)
  rw [Behind, steps]
  rfl

theorem searched_iff (full : level ≠ .onlyCxx) :
    (∃ lookedAt other, Searched ctx address level lookedAt other ∧
        ∃ symbol, findName lookupValue lookedAt (ctx.kext other) = some symbol) ↔
      (∃ dependency ∈ (ctx.kext address).dependencies, InTable lookupValue (ctx.kext dependency)) ∨
      level = .anyLevel ∧ ∃ dependency ∈ (ctx.kext address).dependencies,
        ∃ other, Reaches ctx dependency other ∧ AmongCxx lookupValue (ctx.kext other) := by
  have outside : ¬(level = .onlyCxx ∧ (ctx.kext address).linkedSymbolTable.isSome = true) :=
    fun itself => full itself.1
  rw [← behind_eq]
  constructor
  · rintro ⟨lookedAt, other, reached, found⟩
    cases reached with
    | itself cxx => exact absurd cxx full
    | direct _ member => exact .inl ⟨other, member, (findName_full full).mp found⟩
    | @deep dependency _ _ member further behind =>
      have any : level = .anyLevel := by
        cases level with
        | anyLevel => rfl
        | firstLevel => exact absurd rfl further
        | onlyCxx => exact absurd rfl full
      exact .inr ⟨any, dependency, member, other, behind, findName_cxx.mp found⟩
  · rintro (⟨dependency, member, inTable⟩ | ⟨rfl, dependency, member, other, behind, amongCxx⟩)
    · exact ⟨level, dependency, .direct outside member, (findName_full full).mpr inTable⟩
    · exact ⟨_, other, .deep outside member (by decide) behind, findName_cxx.mpr amongCxx⟩

/-- A lookup by name returns, with the flags down, a symbol of exactly that name if there is
one, and the same one whatever lookups came before. -/
def LooksUpName (ctx : PrelinkedContext) (fuel address : Nat) (lookupValue : AsciiString)
    (level : OcGetSymbolLevel) (processed : Marks Nat) : Prop :=
  ∃ found after,
    internalOcGetSymbolName ctx fuel address lookupValue level processed =
      some (found, after) ∧
    Idle ctx after ∧
    (∀ symbol, found = some symbol → symbol.name.chars = lookupValue.chars) ∧
    (level = .anyLevel → ((∃ symbol, found = some symbol) ↔
      (∃ dependency ∈ (ctx.kext address).dependencies,
        InTable lookupValue (ctx.kext dependency)) ∨
      ∃ dependency ∈ (ctx.kext address).dependencies,
        ∃ other, Reaches ctx dependency other ∧ AmongCxx lookupValue (ctx.kext other))) ∧
    (level = .firstLevel → ((∃ symbol, found = some symbol) ↔
      ∃ dependency ∈ (ctx.kext address).dependencies,
        InTable lookupValue (ctx.kext dependency))) ∧
    ∀ other, Flags ctx fuel other → ∃ same,
      internalOcGetSymbolName ctx fuel address lookupValue level other = some (found, same)

theorem internalOcGetSymbolName_exact (enough : ctx.prelinkedKexts.length < fuel)
    (flags : Flags ctx fuel processed) (nonempty : lookupValue.chars ≠ [])
    (full : level ≠ .onlyCxx) :
    LooksUpName ctx fuel address lookupValue level processed := by
  have positive : ¬ lookupValue.length = 0 := by
    intro empty
    exact nonempty (length_eq_zero_iff.mp empty)
  have idle := flags_idle flags
  obtain ⟨found, left, scan⟩ : ∃ found after, searchFrom ctx (findName lookupValue) fuel
    address level processed = some (found, after) := searchFrom_returns enough
  have exact_ := (searchFrom_iff findName_weaker idle scan).trans (searched_iff full)
  refine ⟨found, internalUnlockContextKexts ctx left, ?_, unlocked_idle left, ?_, ?_, ?_, ?_⟩
  · rw [internalOcGetSymbolName, if_neg positive, scan]
    rfl
  · rintro symbol rfl
    obtain ⟨lookedAt, other, -, here⟩ := searchFrom_some scan
    exact hasName_iff.mp (find?_some here)
  · rintro rfl
    simpa using exact_
  · rintro rfl
    simpa using exact_
  · intro other later
    have agree : Agree ctx.prelinkedKexts processed other := by
      intro kext member
      rw [idle kext member, flags_idle later kext member]
    obtain ⟨same, again⟩ := searchFrom_congr agree scan
    refine ⟨internalUnlockContextKexts ctx same, ?_⟩
    rw [internalOcGetSymbolName, if_neg positive, again]
    rfl

def shortName : AsciiString := ⟨[0x61], by simp, by decide⟩

def shortSymbol : KextSymbol := ⟨0x1000, shortName, 1, rfl⟩

/-- A kernel with these symbols, and kexts that depend on it. -/
def kernelWith (table : List KextSymbol) : PrelinkedContext where
  kext address :=
    if address = 0 then ⟨some table, 0, [], fun _ _ => Nat.zero_le _⟩
    else ⟨none, 0, [0], fun _ linked => by cases linked⟩
  prelinkedKexts := [0]
  closed address dependency member := by
    by_cases kernel : address = 0
    · rw [if_pos kernel] at member
      cases member
    · rw [if_neg kernel] at member
      exact member
  cached address linked := by
    by_cases kernel : address = 0
    · rw [kernel]
      exact mem_singleton.mpr rfl
    · rw [if_neg kernel] at linked
      cases linked

def kernelContext : PrelinkedContext := kernelWith [shortSymbol]

theorem kernelContext_looks_up :
    LooksUpName kernelContext 2 1 shortName .anyLevel fun _ => false :=
  internalOcGetSymbolName_exact (by decide) .zeroed (by decide) (by decide)

end Names

section Values
variable {ctx : PrelinkedContext} {fuel address lookupValue : Nat} {processed : Marks Nat}
  {level : OcGetSymbolLevel} {table : List KextSymbol}
variable {kext : PrelinkedKext}

/-- A symbol of the value among those of a table from one index up to another. -/
def Between (lookupValue : Nat) (table : List KextSymbol) (low high : Nat) : Prop :=
  ∃ index symbol, low ≤ index ∧ index < high ∧ table[index]? = some symbol ∧
    symbol.value = lookupValue

theorem matchSymbols_spec {left index : Nat} (inside : index + left ≤ table.length) :
    ∃ found, matchSymbols lookupValue table left index = some found ∧
      ((∃ symbol, found = some symbol) ↔ Between lookupValue table index (index + left)) := by
  induction left generalizing index with
  | zero =>
    refine ⟨none, rfl, iff_of_false (by simp) ?_⟩
    rintro ⟨other, symbol, above, below, -⟩
    omega
  | succ left ih =>
    rw [matchSymbols, getElem?_eq_getElem (by omega)]
    dsimp only
    split
    · rename_i equal
      refine ⟨_, rfl, iff_of_true ⟨_, rfl⟩ ⟨index, table[index], Nat.le_refl _, by omega, ?_, equal⟩⟩
      exact getElem?_eq_getElem (by omega)
    · rename_i different
      obtain ⟨found, matched, exactly⟩ := ih (show index + 1 + left ≤ table.length by omega)
      refine ⟨found, matched, exactly.trans ⟨?_, ?_⟩⟩
      · rintro ⟨other, symbol, above, below, read, equal⟩
        exact ⟨other, symbol, by omega, by omega, read, equal⟩
      · rintro ⟨other, symbol, above, below, read, equal⟩
        refine ⟨other, symbol, ?_, by omega, read, equal⟩
        by_contra notAbove
        have same : other = index := by omega
        subst same
        rw [getElem?_eq_getElem (by omega)] at read
        rw [Option.some.inj read] at different
        exact different equal

theorem matchBlocks_spec {blocks index : Nat} (inside : index + 16 * blocks ≤ table.length) :
    ∃ found, matchBlocks lookupValue table blocks index = some found ∧
      ((∃ symbol, found = some symbol) ↔ Between lookupValue table index (index + 16 * blocks)) := by
  induction blocks generalizing index with
  | zero =>
    refine ⟨none, rfl, iff_of_false (by simp) ?_⟩
    rintro ⟨other, symbol, above, below, -⟩
    omega
  | succ blocks ih =>
    obtain ⟨first, matched, exactly⟩ : ∃ found, matchSymbols lookupValue table 16 index = some found ∧ _ :=
      matchSymbols_spec (by omega)
    rw [matchBlocks, matched]
    cases first with
    | some symbol =>
      refine ⟨some symbol, rfl, iff_of_true ⟨symbol, rfl⟩ ?_⟩
      obtain ⟨other, here, above, below, found⟩ := exactly.mp ⟨symbol, rfl⟩
      exact ⟨other, here, above, by omega, found⟩
    | none =>
      obtain ⟨found, scan, rest⟩ := ih (show index + 16 + 16 * blocks ≤ table.length by omega)
      refine ⟨found, scan, rest.trans ⟨?_, ?_⟩⟩
      · rintro ⟨other, symbol, above, below, read⟩
        exact ⟨other, symbol, by omega, by omega, read⟩
      · rintro ⟨other, symbol, above, below, read⟩
        refine ⟨other, symbol, ?_, by omega, read⟩
        by_contra notAbove
        have early := exactly.mpr ⟨other, symbol, above, by omega, read⟩
        simp at early

def InPart (lookupValue : Nat) (level : OcGetSymbolLevel) (kext : PrelinkedKext) : Prop :=
  ∃ table, kext.linkedSymbolTable = some table ∧
    Between lookupValue table (kext.partStart level table)
      (kext.partStart level table + kext.partLength level table)

def InBlocks (lookupValue : Nat) (level : OcGetSymbolLevel) (kext : PrelinkedKext) : Prop :=
  ∃ table, kext.linkedSymbolTable = some table ∧
    Between lookupValue table (roundDown16 (kext.partStart level table))
      (roundDown16 (kext.partStart level table) + roundDown16 (kext.partLength level table))

def PastBlocks (lookupValue : Nat) (level : OcGetSymbolLevel) (kext : PrelinkedKext) : Prop :=
  ∃ table, kext.linkedSymbolTable = some table ∧
    Between lookupValue table
      (max (kext.partStart level table)
        (roundDown16 (kext.partStart level table) + roundDown16 (kext.partLength level table)))
      (kext.partStart level table + kext.partLength level table)

def BeforePart (lookupValue : Nat) (level : OcGetSymbolLevel) (kext : PrelinkedKext) : Prop :=
  ∃ table, kext.linkedSymbolTable = some table ∧
    Between lookupValue table (roundDown16 (kext.partStart level table))
      (min (kext.partStart level table)
        (roundDown16 (kext.partStart level table) + roundDown16 (kext.partLength level table)))

theorem roundDown16_le (value : Nat) : roundDown16 value ≤ value := Nat.sub_le _ _

theorem Between.mono {low high lower higher : Nat} (between : Between lookupValue table low high)
    (below : lower ≤ low) (above : high ≤ higher) : Between lookupValue table lower higher := by
  obtain ⟨index, symbol, first, last, found⟩ := between
  exact ⟨index, symbol, by omega, by omega, found⟩

theorem inPart_cases (inPart : InPart lookupValue level kext) :
    PastBlocks lookupValue level kext ∨ InBlocks lookupValue level kext := by
  obtain ⟨table, linked, index, symbol, first, last, found⟩ := inPart
  have early := roundDown16_le (kext.partStart level table)
  by_cases past : roundDown16 (kext.partStart level table) +
      roundDown16 (kext.partLength level table) ≤ index
  · exact .inl ⟨table, linked, index, symbol, by omega, last, found⟩
  · exact .inr ⟨table, linked, index, symbol, by omega, by omega, found⟩

theorem inBlocks_cases (inBlocks : InBlocks lookupValue level kext) :
    BeforePart lookupValue level kext ∨ InPart lookupValue level kext := by
  obtain ⟨table, linked, index, symbol, first, last, found⟩ := inBlocks
  have early := roundDown16_le (kext.partStart level table)
  have short := roundDown16_le (kext.partLength level table)
  by_cases before : index < kext.partStart level table
  · exact .inl ⟨table, linked, index, symbol, first, by omega, found⟩
  · exact .inr ⟨table, linked, index, symbol, by omega, by omega, found⟩

theorem inPart_of_past (past : PastBlocks lookupValue level kext) :
    InPart lookupValue level kext := by
  obtain ⟨table, linked, between⟩ := past
  exact ⟨table, linked, between.mono (Nat.le_max_left _ _) (Nat.le_refl _)⟩

theorem inBlocks_of_before (before : BeforePart lookupValue level kext) :
    InBlocks lookupValue level kext := by
  obtain ⟨table, linked, between⟩ := before
  exact ⟨table, linked, between.mono (Nat.le_refl _) (Nat.min_le_right _ _)⟩

theorem part_inside (level : OcGetSymbolLevel) (linked : kext.linkedSymbolTable = some table) :
    kext.partStart level table + kext.partLength level table ≤ table.length := by
  have few := kext.cxx_le table linked
  rw [PrelinkedKext.partStart, PrelinkedKext.partLength]
  split <;> omega

theorem lookValue_spec :
    lookValue lookupValue level kext ≠ some none ∧
      ((∃ found, lookValue lookupValue level kext = some found) ↔
        InBlocks lookupValue level kext) := by
  rw [lookValue, findValue, InBlocks]
  cases linked : kext.linkedSymbolTable with
  | none => exact ⟨by simp, iff_of_false (by simp) (by simp)⟩
  | some table =>
    have early := roundDown16_le (kext.partStart level table)
    have short := roundDown16_le (kext.partLength level table)
    have within := part_inside level linked
    have whole : 16 * (roundDown16 (kext.partLength level table) / 16) =
        roundDown16 (kext.partLength level table) := by
      rw [roundDown16]
      omega
    have fits : roundDown16 (kext.partStart level table) +
        16 * (roundDown16 (kext.partLength level table) / 16) ≤ table.length := by
      omega
    obtain ⟨found, matched, exactly⟩ :
      ∃ found, matchBlocks lookupValue table _ _ = some found ∧ _ := matchBlocks_spec fits
    dsimp only
    rw [matched]
    rw [whole] at exactly
    cases found with
    | none =>
      refine ⟨by simp, iff_of_false (by simp) ?_⟩
      rintro ⟨other, same, between⟩
      cases same
      have nothing := exactly.mpr between
      simp at nothing
    | some symbol =>
      exact ⟨by simp, iff_of_true ⟨_, rfl⟩ ⟨table, rfl, exactly.mp ⟨symbol, rfl⟩⟩⟩

theorem inBlocks_of_cxx (inBlocks : InBlocks lookupValue .onlyCxx kext) :
    InBlocks lookupValue level kext := by
  obtain ⟨table, linked, between⟩ := inBlocks
  refine ⟨table, linked, ?_⟩
  by_cases cxx : level = .onlyCxx
  · rwa [cxx]
  · have few := kext.cxx_le table linked
    simp only [PrelinkedKext.partStart, PrelinkedKext.partLength, if_true] at between
    simp only [PrelinkedKext.partStart, PrelinkedKext.partLength, if_neg cxx]
    apply between.mono
    · exact Nat.zero_le _
    · simp only [roundDown16]
      omega

theorem lookValue_weaker (level : OcGetSymbolLevel) (kext : PrelinkedKext)
    (nothing : lookValue lookupValue level kext = none) :
    lookValue lookupValue .onlyCxx kext = none := by
  cases cxx : lookValue lookupValue .onlyCxx kext with
  | none => rfl
  | some found =>
    obtain ⟨result, same⟩ := lookValue_spec.2.mpr (inBlocks_of_cxx (lookValue_spec.2.mp ⟨found, cxx⟩))
    rw [nothing] at same
    cases same

/-- A lookup by value returns, reads only symbols of the tables, and finds a symbol exactly
when a scan of all searched parts does. -/
def LooksUpValue (ctx : PrelinkedContext) (fuel address lookupValue : Nat)
    (level : OcGetSymbolLevel) (processed : Marks Nat) : Prop :=
  ∃ found after,
    internalOcGetSymbolValue ctx fuel address lookupValue level processed =
      some (found, after) ∧
    found ≠ some none ∧
    ((∃ symbol, found = some symbol) ↔ ∃ lookedAt other,
      Searched ctx address level lookedAt other ∧
        InPart lookupValue lookedAt (ctx.kext other))

theorem internalOcGetSymbolValue_spec (enough : ctx.prelinkedKexts.length < fuel)
    (idle : Idle ctx processed) :
    ∃ found after, internalOcGetSymbolValue ctx fuel address lookupValue level processed =
        some (found, after) ∧ found ≠ some none ∧
      ((∃ symbol, found = some symbol) ↔ ∃ lookedAt other,
        Searched ctx address level lookedAt other ∧
          InBlocks lookupValue lookedAt (ctx.kext other)) := by
  obtain ⟨found, left, scan⟩ : ∃ found after, searchFrom ctx (lookValue lookupValue) fuel
    address level processed = some (found, after) := searchFrom_returns enough
  have blocks := searchFrom_iff lookValue_weaker idle scan
  simp only [lookValue_spec.2] at blocks
  refine ⟨found, internalUnlockContextKexts ctx left, ?_, ?_, blocks⟩
  · rw [internalOcGetSymbolValue, scan]
    rfl
  · rintro rfl
    obtain ⟨lookedAt, other, -, here⟩ := searchFrom_some scan
    exact lookValue_spec.1 here

/-- A lookup by value is right exactly when no symbol is missed in the rest of a part and
none is found before a part, unless another searched kext makes up for it. -/
theorem internalOcGetSymbolValue_right (enough : ctx.prelinkedKexts.length < fuel)
    (flags : Flags ctx fuel processed) :
    LooksUpValue ctx fuel address lookupValue level processed ↔
      (∀ lookedAt other, Searched ctx address level lookedAt other →
        PastBlocks lookupValue lookedAt (ctx.kext other) →
          ∃ lookedAt other, Searched ctx address level lookedAt other ∧
            InBlocks lookupValue lookedAt (ctx.kext other)) ∧
      ∀ lookedAt other, Searched ctx address level lookedAt other →
        BeforePart lookupValue lookedAt (ctx.kext other) →
          ∃ lookedAt other, Searched ctx address level lookedAt other ∧
            InPart lookupValue lookedAt (ctx.kext other) := by
  obtain ⟨found, after, returned, inside, blocks⟩ : ∃ found after, internalOcGetSymbolValue ctx
    fuel address lookupValue level processed = some (found, after) ∧ _ :=
      internalOcGetSymbolValue_spec enough (flags_idle flags)
  constructor
  · rintro ⟨result, left, again, -, parts⟩
    cases returned.symm.trans again
    have same := blocks.symm.trans parts
    constructor
    · intro lookedAt other reached past
      exact same.mpr ⟨lookedAt, other, reached, inPart_of_past past⟩
    · intro lookedAt other reached before
      exact same.mp ⟨lookedAt, other, reached, inBlocks_of_before before⟩
  · rintro ⟨past, before⟩
    refine ⟨found, after, returned, inside, blocks.trans ⟨?_, ?_⟩⟩
    · rintro ⟨lookedAt, other, reached, inBlocks⟩
      rcases inBlocks_cases inBlocks with early | inPart
      · exact before lookedAt other reached early
      · exact ⟨lookedAt, other, reached, inPart⟩
    · rintro ⟨lookedAt, other, reached, inPart⟩
      rcases inPart_cases inPart with late | inBlocks
      · exact past lookedAt other reached late
      · exact ⟨lookedAt, other, reached, inBlocks⟩

/-- Of the kernel's only symbol no lookup by value knows. -/
theorem kernelContext_misses :
    ¬ LooksUpValue kernelContext 2 1 0x1000 .anyLevel fun _ => false := by
  rintro ⟨found, after, returned, -, parts⟩
  have nothing : internalOcGetSymbolValue kernelContext 2 1 0x1000 .anyLevel (fun _ => false) =
      some (none, _) := rfl
  cases nothing.symm.trans returned
  have reached : Searched kernelContext 1 .anyLevel .anyLevel 0 :=
    .direct (by decide) (mem_singleton.mpr rfl)
  have present : InPart 0x1000 .anyLevel (kernelContext.kext 0) :=
    ⟨[shortSymbol], rfl, 0, shortSymbol, Nat.le_refl _, Nat.one_pos, rfl, rfl⟩
  obtain ⟨symbol, clash⟩ := parts.mpr ⟨.anyLevel, 0, reached, present⟩
  cases clash

/-- The second symbol and the last of 18 have one value. -/
def manySymbols : List KextSymbol :=
  (range 18).map fun index => ⟨0x1000 + index % 16, shortName, 1, rfl⟩

theorem manySymbols_right :
    LooksUpValue (kernelWith manySymbols) 2 1 0x1001 .anyLevel (fun _ => false) ∧
      PastBlocks 0x1001 .anyLevel ((kernelWith manySymbols).kext 0) := by
  have reached : Searched (kernelWith manySymbols) 1 .anyLevel .anyLevel 0 :=
    .direct (by decide) (mem_singleton.mpr rfl)
  have second : InBlocks 0x1001 .anyLevel ((kernelWith manySymbols).kext 0) :=
    ⟨manySymbols, rfl, 1, _, by decide, by decide, rfl, rfl⟩
  have last : PastBlocks 0x1001 .anyLevel ((kernelWith manySymbols).kext 0) :=
    ⟨manySymbols, rfl, 17, _, by decide, by decide, rfl, rfl⟩
  refine ⟨(internalOcGetSymbolValue_right (by decide) .zeroed).mpr ⟨?_, ?_⟩, last⟩
  · exact fun _ _ _ _ => ⟨_, 0, reached, second⟩
  · exact fun _ _ _ _ => ⟨_, 0, reached, inPart_of_past last⟩

end Values

end OpenCore.SymbolLookup
