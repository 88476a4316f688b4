import Mathlib.Data.List.Infix
import OpenCore.KextSymbols

/-!
`InternalPatchVtableSymbol` decides whether the symbol behind an entry of a kext's vtable is
replaced by that of the parent's entry. The decision is made by the names, most of all whether
the class that owns the vtable has declared the method itself.
-/

namespace OpenCore.VtableSymbols

open Base KextSymbols

section Names

def vtablePrefix : List UInt8 := [0x5F, 0x5F, 0x5A, 0x54, 0x56]

def osObjPrefix : List UInt8 := [0x5F, 0x5F, 0x5A, 0x4E]

def reservedToken : List UInt8 := [0x5F, 0x52, 0x45, 0x53, 0x45, 0x52, 0x56, 0x45, 0x44]

def cxxPureVirtual : List UInt8 :=
  [0x5F, 0x5F, 0x5F, 0x63, 0x78, 0x61, 0x5F, 0x70, 0x75, 0x72, 0x65, 0x5F, 0x76, 0x69, 0x72, 0x74,
    0x75, 0x61, 0x6C]

def symMaxNameLen : Nat := 256

structure VtableName where
  name : AsciiString
  prefixed : vtablePrefix <+: name.chars

def machoSymbolNameIsPureVirtual (name : AsciiString) : Bool := name.chars == cxxPureVirtual

def machoSymbolNameIsPadslot (name : AsciiString) : Bool := decide (reservedToken <:+: name.chars)

def machoGetClassNameFromVtableName (vtable : VtableName) : List UInt8 :=
  vtable.name.chars.drop vtablePrefix.length

def machoGetFunctionPrefixFromClassName (className : List UInt8) (functionPrefixSize : Nat) :
    Option (List UInt8) :=
  match baseOverflowAdd u64 osObjPrefix.length (className.length + 1) with
  | none => none
  | some totalSize => if functionPrefixSize < totalSize then none else some (osObjPrefix ++ className)

end Names

section Symbols

def machNTypeStab : Nat := 0xE0
def machNTypeType : Nat := 0x0E
def machNTypeExt : Nat := 0x01
def machNTypeAbs : Nat := 0x2
def machNTypeSect : Nat := 0xE
def noSect : Nat := 0

structure NList where
  name : AsciiString
  type : Nat
  sect : Nat
  value : Nat

/-- What the symbol functions read of a kext's `OC_MACHO_CONTEXT`: the index and the number of the
undefined symbols, if there is a `DySymtab`. -/
structure KextContext where
  is32Bit : Bool
  undefinedSymbols : Option (Nat × Nat)

/-- `MachoSymbolIsDefined`; a symbol without debugging bits is of a section by its type alone. -/
def machoSymbolIsDefined (symbol : NList) : Bool :=
  symbol.type &&& machNTypeStab == 0 &&
    (symbol.type &&& machNTypeType == machNTypeAbs || symbol.type &&& machNTypeType == machNTypeSect)

def machoSymbolIsLocalDefined (context : KextContext) (index : Nat) (symbol : NList) : Bool :=
  match context.undefinedSymbols with
  | none => false
  | some (undefinedSymbolsIndex, numUndefinedSymbols) =>
    if numUndefinedSymbols = 0 then false
    else if undefinedSymbolsIndex ≤ index ∧ index < undefinedSymbolsIndex + numUndefinedSymbols then
      false
    else machoSymbolIsDefined symbol

def internalSolveSymbolValue (is32Bit : Bool) (value : Nat) (symbol : NList) : NList :=
  { symbol with
    value := if is32Bit then value % u32 else value
    type := machNTypeAbs ||| machNTypeExt
    sect := noSect }

structure VtableEntry where
  name : Option AsciiString
  address : Nat

inductive Patched where
  | kept
  | replaced (symbol : NList)
  | failed

def internalPatchVtableSymbol (context : KextContext) (parentEntry : VtableEntry)
    (vtable : VtableName) (index : Nat) (symbol : NList) : Patched :=
  match parentEntry.name with
  | none => .kept
  | some parent =>
    -- 1) The symbol is defined locally.
    if machoSymbolIsLocalDefined context index symbol then .kept
    -- 2) The child is a pure virtual function.
    else if machoSymbolNameIsPureVirtual symbol.name then .kept
    -- 3) The symbols are the same.
    else if symbol.name.chars = parent.chars then .kept
    -- 4) The parent is a pad slot, which the child does not match.
    else if machoSymbolNameIsPadslot parent then .failed
    -- 5) The class declares a method that it does not implement.
    else if ¬machoSymbolIsDefined symbol then
      match machoGetFunctionPrefixFromClassName (machoGetClassNameFromVtableName vtable)
          symMaxNameLen with
      | none => .failed
      | some functionPrefix =>
        if symbol.name.chars = functionPrefix then .failed
        else .replaced (internalSolveSymbolValue context.is32Bit parentEntry.address symbol)
    -- 6) The child is unresolved and different from its parent.
    else .replaced (internalSolveSymbolValue context.is32Bit parentEntry.address symbol)

end Symbols

section Rules

variable (context : KextContext) (parentEntry : VtableEntry) (vtable : VtableName) (index : Nat)
  (symbol : NList)

def VtableName.functionPrefix (vtable : VtableName) : List UInt8 :=
  osObjPrefix ++ machoGetClassNameFromVtableName vtable

def Spared : Prop :=
  parentEntry.name = none ∨ machoSymbolIsLocalDefined context index symbol = true ∨
    machoSymbolNameIsPureVirtual symbol.name = true ∨
      ∃ parent, parentEntry.name = some parent ∧
        (symbol.name.chars = parent.chars ∨ machoSymbolNameIsPadslot parent = true)

/-- A replacement that the rules allow, of a method that the class does not override. -/
def Allowed : Prop :=
  ¬Spared context parentEntry index symbol ∧ ¬vtable.functionPrefix <+: symbol.name.chars

variable {context parentEntry vtable index symbol}

theorem machoGetFunctionPrefixFromClassName_eq (vtable : VtableName) :
    machoGetFunctionPrefixFromClassName (machoGetClassNameFromVtableName vtable) symMaxNameLen =
      if symMaxNameLen ≤ vtable.functionPrefix.length then none else some vtable.functionPrefix := by
  have short : (machoGetClassNameFromVtableName vtable).length < u32 := by
    have bounded := vtable.name.bounded
    rw [machoGetClassNameFromVtableName, List.length_drop]
    omega
  have four : osObjPrefix.length = 4 := rfl
  have fits : osObjPrefix.length + ((machoGetClassNameFromVtableName vtable).length + 1) < u64 := by
    rw [u32_val] at short
    rw [u64_val]
    omega
  rw [machoGetFunctionPrefixFromClassName, baseOverflowAdd, if_pos fits, VtableName.functionPrefix,
    List.length_append]
  dsimp only
  by_cases long : symMaxNameLen ≤
      osObjPrefix.length + (machoGetClassNameFromVtableName vtable).length
  · rw [if_pos long, if_pos (by omega)]
  · rw [if_neg long, if_neg (by omega)]

theorem not_replaced_of_spared (spared : Spared context parentEntry index symbol) (after : NList) :
    internalPatchVtableSymbol context parentEntry vtable index symbol ≠ .replaced after := by
  unfold internalPatchVtableSymbol
  cases given : parentEntry.name with
  | none => exact nofun
  | some parent =>
    dsimp only
    by_cases defined : machoSymbolIsLocalDefined context index symbol = true
    · rw [if_pos defined]
      exact nofun
    · by_cases pure : machoSymbolNameIsPureVirtual symbol.name = true
      · rw [if_neg defined, if_pos pure]
        exact nofun
      · by_cases same : symbol.name.chars = parent.chars
        · rw [if_neg defined, if_neg pure, if_pos same]
          exact nofun
        · have padslot : machoSymbolNameIsPadslot parent = true := by
            rcases spared with absent | isDefined | isPure | ⟨other, found, either⟩
            · rw [given] at absent
              cases absent
            · exact absurd isDefined defined
            · exact absurd isPure pure
            · rw [given] at found
              cases found
              exact either.resolve_left same
          rw [if_neg defined, if_neg pure, if_neg same, if_pos padslot]
          exact nofun

/-- Behind the first four rules, an undefined child is replaced unless it is the prefix itself. -/
theorem replaced_iff_of_not_spared (open' : ¬Spared context parentEntry index symbol) :
    (∃ after, internalPatchVtableSymbol context parentEntry vtable index symbol = .replaced after) ↔
      (machoSymbolIsDefined symbol = false → vtable.functionPrefix.length < symMaxNameLen ∧
          symbol.name.chars ≠ vtable.functionPrefix) := by
  simp only [Spared, not_or, not_exists, not_and] at open'
  obtain ⟨named, defined, pure, names⟩ := open'
  obtain ⟨parent, given⟩ := Option.ne_none_iff_exists'.mp named
  have same := (names parent given).1
  have padslot := (names parent given).2
  unfold internalPatchVtableSymbol
  rw [given]
  dsimp only
  rw [if_neg defined, if_neg pure, if_neg same, if_neg padslot,
    machoGetFunctionPrefixFromClassName_eq]
  cases machoSymbolIsDefined symbol with
  | true => simp
  | false =>
    by_cases long : symMaxNameLen ≤ vtable.functionPrefix.length
    · simp [long, not_lt.mpr long]
    · by_cases exact' : symbol.name.chars = vtable.functionPrefix
      · simp [long, exact']
      · simp [long, exact', Nat.lt_of_not_le long]

/-- The child that overrides a method is replaced none the less: its name goes on behind the
prefix of its class, or it is defined by another kext. -/
def Overlooked (context : KextContext) (parentEntry : VtableEntry) (vtable : VtableName)
    (index : Nat) (symbol : NList) : Prop :=
  ¬Spared context parentEntry index symbol ∧ vtable.functionPrefix <+: symbol.name.chars ∧
    (machoSymbolIsDefined symbol = false →
      vtable.functionPrefix.length < symMaxNameLen ∧ symbol.name.chars ≠ vtable.functionPrefix)

/-- Only what the rules allow is replaced, except for the children that are overlooked. -/
theorem internalPatchVtableSymbol_allowed (context : KextContext) (parentEntry : VtableEntry)
    (vtable : VtableName) (index : Nat) (symbol : NList) :
    (∀ after, internalPatchVtableSymbol context parentEntry vtable index symbol = .replaced after →
        Allowed context parentEntry vtable index symbol) ↔
      ¬Overlooked context parentEntry vtable index symbol := by
  constructor
  · rintro allowed ⟨unspared, own, passes⟩
    obtain ⟨after, replaced⟩ := (replaced_iff_of_not_spared unspared).mpr passes
    exact (allowed after replaced).2 own
  · intro overlooked after replaced
    have unspared : ¬Spared context parentEntry index symbol := fun spared =>
      not_replaced_of_spared spared after replaced
    refine ⟨unspared, fun own => overlooked ⟨unspared, own, ?_⟩⟩
    exact (replaced_iff_of_not_spared unspared).mp ⟨after, replaced⟩

def fooVtable : VtableName where
  name := ⟨[0x5F, 0x5F, 0x5A, 0x54, 0x56, 0x33, 0x46, 0x6F, 0x6F], by simp, by decide⟩
  prefixed := by decide

def fooMethod : NList where
  name := ⟨[0x5F, 0x5F, 0x5A, 0x4E, 0x33, 0x46, 0x6F, 0x6F, 0x33, 0x62, 0x61, 0x72, 0x45, 0x76],
    by simp, by decide⟩
  type := machNTypeExt
  sect := noSect
  value := 0

def baseMethod : VtableEntry where
  name := some ⟨[0x5F, 0x5F, 0x5A, 0x4E, 0x34, 0x42, 0x61, 0x73, 0x65, 0x33, 0x62, 0x61, 0x72, 0x45,
    0x76], by simp, by decide⟩
  address := 0x1000

theorem internalPatchVtableSymbol_fooMethod :
    ¬∀ after, internalPatchVtableSymbol ⟨false, some (0, 1)⟩ baseMethod fooVtable 0 fooMethod =
      .replaced after → Allowed ⟨false, some (0, 1)⟩ baseMethod fooVtable 0 fooMethod := by
  intro allowed
  exact (allowed _ rfl).2 (by decide)

end Rules

end OpenCore.VtableSymbols
