import Mathlib.Data.List.Nodup

/-!
How a cacheless boot finds the built-in kexts that have to be loaded for the patched and the
injected ones: the dependencies of each are followed through the built-in kexts whose
`OSBundleRequired` is not valid already. The kexts met are marked and put into the list of
injected dependencies, over which the last loop goes while it grows.
-/

namespace OpenCore.CachelessScan

section Kexts

inductive OsBundleRequired where
  | none
  | invalid
  | valid
  deriving DecidableEq

structure BuiltinKext where
  identifier : String
  osBundleRequiredValue : OsBundleRequired
  dependencies : List String
  deriving DecidableEq

/-- `LookupBuiltinKextForIdentifier`, from a place in the list on: the first kext with the
identifier. -/
def lookupFrom (identifier : String) : List BuiltinKext → Nat → Option (Nat × BuiltinKext)
  | [], _ => none
  | kext :: rest, place =>
    if kext.identifier = identifier then some (place, kext)
    else lookupFrom identifier rest (place + 1)

def lookupBuiltinKextForIdentifier (builtInKexts : List BuiltinKext) (identifier : String) :
    Option (Nat × BuiltinKext) := lookupFrom identifier builtInKexts 0

end Kexts

section Scans

/-- What the scan changes of a context: the flags of the built-in kexts, by their places, and
the list of dependencies, where none is twice. -/
structure ScanState where
  patchKext : Nat → Bool
  patchValidOsBundleRequired : Nat → Bool
  injectedDependencies : List String
  once : injectedDependencies.Nodup

def setFlag (flags : Nat → Bool) (place : Nat) : Nat → Bool := fun other =>
  if other = place then true else flags other

def ScanState.setPatchKext (state : ScanState) (place : Nat) : ScanState :=
  { state with patchKext := setFlag state.patchKext place }

def ScanState.setPatchValid (state : ScanState) (place : Nat) : ScanState :=
  { state with
    patchValidOsBundleRequired := setFlag state.patchValidOsBundleRequired place }

def ScanState.addKextDependency (state : ScanState) (identifier : String) : ScanState :=
  if present : identifier ∈ state.injectedDependencies then state
  else
    { state with
      injectedDependencies := state.injectedDependencies ++ [identifier]
      once := by
        rw [← List.concat_eq_append]
        exact state.once.concat present }

variable (builtInKexts : List BuiltinKext)

def scanDependencies : Nat → String → ScanState → Option ScanState
  | 0, _, _ => none
  | depth + 1, identifier, state =>
    match lookupBuiltinKextForIdentifier builtInKexts identifier with
    | none => some state
    | some (place, kext) =>
      if kext.osBundleRequiredValue = .valid then some state
      else
        kext.dependencies.foldlM (fun state dependency => scanDependencies depth dependency state)
          ((state.setPatchValid place).addKextDependency identifier)

def scanPatchedKext (depth : Nat) (state : ScanState) (identifier : String) : Option ScanState :=
  match lookupBuiltinKextForIdentifier builtInKexts identifier with
  | none => some state
  | some (place, _) => scanDependencies builtInKexts depth identifier (state.setPatchKext place)

def scanInjected (depth : Nat) : Nat → Nat → ScanState → Option ScanState
  | 0, _, _ => none
  | turns + 1, position, state =>
    match state.injectedDependencies[position]? with
    | none => some state
    | some identifier =>
      (scanDependencies builtInKexts depth identifier state).bind
        (scanInjected depth turns (position + 1))

def scanBuiltInKexts (depth turns : Nat) (patchedKexts : List String) (state : ScanState) :
    Option ScanState :=
  (patchedKexts.foldlM (scanPatchedKext builtInKexts depth) state).bind
    (scanInjected builtInKexts depth turns 0)

end Scans

end OpenCore.CachelessScan
