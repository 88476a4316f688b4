import OpenCore.AcpiContext
import OpenCore.AddressSpace

/-!
The parsers of AcpiParser.c. Each C function is one definition; a call that takes
its result into account is a bind, an early return an exit. The mutual recursion
through `InternalAcpiParseTerm` runs on fuel.
-/

namespace OpenCore.AcpiParser

open TracedAction AcpiContext

section Opcodes

def amlZeroOp : UInt8 := 0x00
def amlOneOp : UInt8 := 0x01
def amlAliasOp : UInt8 := 0x06
def amlNameOp : UInt8 := 0x08
def amlBytePrefix : UInt8 := 0x0A
def amlWordPrefix : UInt8 := 0x0B
def amlDwordPrefix : UInt8 := 0x0C
def amlStringPrefix : UInt8 := 0x0D
def amlQwordPrefix : UInt8 := 0x0E
def amlScopeOp : UInt8 := 0x10
def amlBufferOp : UInt8 := 0x11
def amlPackageOp : UInt8 := 0x12
def amlVarPackageOp : UInt8 := 0x13
def amlMethodOp : UInt8 := 0x14
def amlExternalOp : UInt8 := 0x15
def amlDualNamePrefix : UInt8 := 0x2E
def amlMultiNamePrefix : UInt8 := 0x2F
def amlExtOp : UInt8 := 0x5B
def amlRootChar : UInt8 := 0x5C
def amlParentPrefixChar : UInt8 := 0x5E
def amlArg0 : UInt8 := 0x68
def amlArg6 : UInt8 := 0x6E
def amlAddOp : UInt8 := 0x72
def amlSubtractOp : UInt8 := 0x74
def amlCreateDwordFieldOp : UInt8 := 0x8A
def amlCreateWordFieldOp : UInt8 := 0x8B
def amlCreateByteFieldOp : UInt8 := 0x8C
def amlCreateBitFieldOp : UInt8 := 0x8D
def amlCreateQwordFieldOp : UInt8 := 0x8F
def amlIfOp : UInt8 := 0xA0
def amlElseOp : UInt8 := 0xA1
def amlOnesOp : UInt8 := 0xFF
def amlExtMutexOp : UInt8 := 0x01
def amlExtEventOp : UInt8 := 0x02
def amlExtCreateFieldOp : UInt8 := 0x13
def amlExtRegionOp : UInt8 := 0x80
def amlExtFieldOp : UInt8 := 0x81
def amlExtDeviceOp : UInt8 := 0x82
def amlExtProcessorOp : UInt8 := 0x83
def amlExtPowerResOp : UInt8 := 0x84
def amlExtThermalZoneOp : UInt8 := 0x85
def amlExtIndexFieldOp : UInt8 := 0x86
def amlExtBankFieldOp : UInt8 := 0x87

end Opcodes

section Parsers

variable (lookup : Lookup)

section Names

/-- The out parameters of `ParseNameString`; the start of an empty path is
`NULL` and never read. -/
structure NamePath where
  namePathStart : Nat
  pathLength : Nat
  isRootPath : Bool

def skipNamePrefix : Nat → Bool → Parser Bool
  | 0, _ => exhausted
  | fuel + 1, isRootPath => do
      let byte ← currentByte lookup
      if byte = amlRootChar ∨ byte = amlParentPrefixChar then do
        contextAdvanceOpcode lookup
        skipNamePrefix fuel (isRootPath || byte == amlRootChar)
      else pure isRootPath

def parseNameSegments (isRootPath : Bool) : Parser NamePath := do
  let byte ← currentByte lookup
  if byte = amlZeroOp then do
    let ctx ← Action.get
    moveOpcode (ctx.currentOpcode + 1)
    pure ⟨0, 0, isRootPath⟩
  else if byte = amlDualNamePrefix then do
    contextAdvanceOpcode lookup
    contextPeekBytes lookup (2 * identLen)
    let ctx ← Action.get
    moveOpcode (ctx.currentOpcode + 2 * identLen)
    pure ⟨ctx.currentOpcode, 2, isRootPath⟩
  else if byte = amlMultiNamePrefix then do
    contextAdvanceOpcode lookup
    let count ← currentByte lookup
    contextPeekBytes lookup (1 + count.toNat * identLen)
    let ctx ← Action.get
    moveOpcode (ctx.currentOpcode + (1 + count.toNat * identLen))
    pure ⟨ctx.currentOpcode + 1, count.toNat, isRootPath⟩
  else do
    contextPeekBytes lookup identLen
    let ctx ← Action.get
    moveOpcode (ctx.currentOpcode + identLen)
    pure ⟨ctx.currentOpcode, 1, isRootPath⟩

def parseNameString : Parser NamePath := leaving (fun _ => .success) do
  contextHasWork
  contextIncreaseNesting .nameString
  let isRootPath ← skipNamePrefix lookup (lookup.tableEnd + 1) false
  let name ← parseNameSegments lookup isRootPath
  contextDecreaseNesting
  pure name

def pkgLengthBytes (base : Nat) : List Nat → Parser Nat
  | [] => pure 0
  | index :: rest => do
      let byte ← readTable lookup (base + index)
      let total ← pkgLengthBytes base rest
      pure (byte.toNat <<< (index * 8 + 4) ||| total)

def pkgByteCount (leadByte : UInt8) : Nat := (leadByte.toNat &&& 0xC0) >>> 6

def parsePkgLengthBytes (leadByte : UInt8) : Parser Nat :=
  if 0 < pkgByteCount leadByte then do
    contextPeekBytes lookup (pkgByteCount leadByte)
    let ctx ← Action.get
    let total ← pkgLengthBytes lookup ctx.currentOpcode (List.range (pkgByteCount leadByte))
    contextConsumeBytes lookup (pkgByteCount leadByte)
    pure (total ||| (leadByte.toNat &&& 0x0F))
  else pure leadByte.toNat

def parsePkgLength : Parser Nat := leaving (fun _ => .success) do
  contextHasWork
  contextIncreaseNesting .pkgLength
  let leadByte ← currentByte lookup
  contextConsumeBytes lookup 1
  let length ← parsePkgLengthBytes lookup leadByte
  contextDecreaseNesting
  pure length

end Names

section Matching

/-- One name segment against the current identifier, up to the first
difference. -/
def compareCharacters (name : Nat) : List Nat → Parser Bool
  | [] => pure true
  | index :: rest => do
      let ch ← readTable lookup (name + index)
      let ctx ← Action.get
      let expected ← readPath lookup ctx.currentIdentifier index
      if ch = expected then compareCharacters name rest else pure false

def matchIdentifier (name : Nat) : Parser Bool :=
  compareCharacters lookup name (List.range identLen)

/-- The name loop of `ParseScopeOrDevice`: the search starts over at a
difference and where the path ends inside the name. -/
def matchScopeName (name : Nat) : Nat → Parser Unit
  | 0 => pure ()
  | count + 1 => do
      let ctx ← Action.get
      if ctx.currentIdentifier = lookup.pathEnd then setIdentifier 0
      else do
        let same ← matchIdentifier lookup name
        if same then do
          setIdentifier (ctx.currentIdentifier + 1)
          matchScopeName (name + identLen) count
        else setIdentifier 0

/-- The name loops of `ParseMethod` and `ParseField`: whether the name is the
rest of the path. -/
def matchWholeName (name : Nat) : Nat → Parser Bool
  | 0 => do
      let ctx ← Action.get
      pure (ctx.currentIdentifier == lookup.pathEnd)
  | count + 1 => do
      let ctx ← Action.get
      if ctx.currentIdentifier = lookup.pathEnd then pure false
      else do
        let same ← matchIdentifier lookup name
        if same then do
          setIdentifier (ctx.currentIdentifier + 1)
          matchWholeName (name + identLen) count
        else pure false

def skipBlock (blockEnd identifier : Nat) : Parser Status := do
  moveOpcode blockEnd
  setIdentifier identifier
  contextDecreaseNesting
  pure .notFound

/-- The common ending of a block whose name matched: found, or one of the
entries to skip. -/
def finishMatch (start blockEnd identifier : Nat) : Parser Status := do
  let reached ← countEntry lookup
  if reached then foundAt start else skipBlock blockEnd identifier

end Matching

section Skipped

def parseAlias : Parser Status := function do
  contextHasWork
  contextIncreaseNesting .aliasName
  let _ ← orDeviceError (parseNameString lookup)
  contextPeekBytes lookup 1
  let _ ← orDeviceError (parseNameString lookup)
  contextDecreaseNesting
  pure .notFound

def skipPackage : Parser Unit := do
  let start ← Action.get
  let length ← orDeviceError (parsePkgLength lookup)
  moveOpcode start.currentOpcode
  contextConsumeBytes lookup length

def skipString : Nat → Parser Unit
  | 0 => exhausted
  | fuel + 1 => do
      contextAdvanceOpcode lookup
      let byte ← currentByte lookup
      if 0x01 ≤ byte ∧ byte ≤ 0x7F then skipString fuel
      else do
        deviceErrorIf (byte ≠ amlZeroOp)
        contextConsumeBytes lookup 1

def integerSize (byte : UInt8) : Option Nat :=
  if byte = amlZeroOp ∨ byte = amlOneOp then some 1
  else if byte = amlBytePrefix then some 2
  else if byte = amlWordPrefix then some 3
  else if byte = amlDwordPrefix then some 5
  else if byte = amlQwordPrefix then some 9
  else none

def skipNameObject (byte : UInt8) : Parser Unit :=
  match integerSize byte with
  | some size => contextConsumeBytes lookup size
  | none =>
    if byte = amlOnesOp then contextConsumeBytes lookup 1
    else if byte = amlExtOp then contextConsumeBytes lookup 2
    else if byte = amlStringPrefix then skipString lookup (lookup.tableEnd + 1)
    else if byte = amlBufferOp ∨ byte = amlPackageOp ∨ byte = amlVarPackageOp then do
      contextAdvanceOpcode lookup
      skipPackage lookup
    else returnStatus .deviceError

def parseName : Parser Status := function do
  contextHasWork
  contextIncreaseNesting .name
  let _ ← orDeviceError (parseNameString lookup)
  contextPeekBytes lookup 1
  let byte ← currentByte lookup
  skipNameObject lookup byte
  contextDecreaseNesting
  pure .notFound

def parseNameAndBytes (parser : ParserName) (bytes : Nat) : Parser Status := function do
  contextHasWork
  contextIncreaseNesting parser
  let _ ← orDeviceError (parseNameString lookup)
  contextConsumeBytes lookup bytes
  contextDecreaseNesting
  pure .notFound

def parseExternal : Parser Status := parseNameAndBytes lookup .external 2

def parseMutex : Parser Status := parseNameAndBytes lookup .mutex 1

def parseEvent : Parser Status := function do
  contextHasWork
  contextIncreaseNesting .event
  let _ ← orDeviceError (parseNameString lookup)
  contextDecreaseNesting
  pure .notFound

def skipOperand : Parser Unit := do
  let byte ← currentByte lookup
  match integerSize byte with
  | some size => contextConsumeBytes lookup size
  | none => do
      let _ ← orDeviceError (parseNameString lookup)
      pure ()

def skipRegionArgument : Parser Unit := do
  let byte ← currentByte lookup
  if byte = amlAddOp ∨ byte = amlSubtractOp then do
    contextAdvanceOpcode lookup
    skipOperand lookup
    contextPeekBytes lookup 1
    skipOperand lookup
    contextPeekBytes lookup 1
    let _ ← orDeviceError (parseNameString lookup)
    pure ()
  else skipOperand lookup

def parseOpRegion : Parser Status := function do
  contextHasWork
  contextIncreaseNesting .opRegion
  let _ ← orDeviceError (parseNameString lookup)
  contextAdvanceOpcode lookup
  skipRegionArgument lookup
  contextPeekBytes lookup 1
  skipRegionArgument lookup
  contextDecreaseNesting
  pure .notFound

def parseSkippedPackage (parser : ParserName) : Parser Status := function do
  contextHasWork
  contextIncreaseNesting parser
  skipPackage lookup
  contextDecreaseNesting
  pure .notFound

def parsePowerRes : Parser Status := parseSkippedPackage lookup .powerRes

def parseProcessor : Parser Status := parseSkippedPackage lookup .processor

def parseThermalZone : Parser Status := parseSkippedPackage lookup .thermalZone

end Skipped

section Blocks

/-- Length of a block and where it ends; the length counts from its own first
byte. -/
def parseBlockEnd : Parser Nat := do
  let start ← Action.get
  let length ← orDeviceError (parsePkgLength lookup)
  deviceErrorIf (remaining lookup start.currentOpcode < length)
  pure (start.currentOpcode + length)

def deviceErrorUnlessBefore (blockEnd : Nat) : Parser Unit := do
  let ctx ← Action.get
  deviceErrorIf (blockEnd ≤ ctx.currentOpcode)

def deviceErrorIfBehind (blockEnd : Nat) : Parser Unit := do
  let ctx ← Action.get
  deviceErrorIf (blockEnd < ctx.currentOpcode)

/-- `ParseMethod` and `ParseField`, which differ in nothing but their names and
where they note the current identifier. -/
def parseNamedBlock (parser : ParserName) : Parser Status := function do
  contextHasWork
  contextIncreaseNesting parser
  let start ← Action.get
  let blockEnd ← parseBlockEnd lookup
  deviceErrorUnlessBefore blockEnd
  let name ← orDeviceError (parseNameString lookup)
  deviceErrorIfBehind blockEnd
  let whole ← matchWholeName lookup name.namePathStart name.pathLength
  if whole then finishMatch lookup start.currentOpcode blockEnd start.currentIdentifier
  else skipBlock blockEnd start.currentIdentifier

def parseMethod : Parser Status := parseNamedBlock lookup .method

def parseField : Parser Status := parseNamedBlock lookup .field

/-- The end of `ParseBankField` and `ParseIndexField`: the second name is the
last identifier. The search goes back to the identifier before it. -/
def matchLastIdentifier (start blockEnd : Nat) (name : NamePath) : Parser Status := do
  deviceErrorIf (name.pathLength ≠ 1)
  let ctx ← Action.get
  let same ← matchIdentifier lookup name.namePathStart
  if same = true ∧ ctx.currentIdentifier + 1 = lookup.pathEnd then
    finishMatch lookup start blockEnd (ctx.currentIdentifier - 1)
  else skipBlock blockEnd (ctx.currentIdentifier - 1)

def parseBankField : Parser Status := function do
  contextHasWork
  contextIncreaseNesting .bankField
  let start ← Action.get
  let bankEnd ← parseBlockEnd lookup
  contextPeekBytes lookup 1
  let name ← orDeviceError (parseNameString lookup)
  deviceErrorUnlessBefore bankEnd
  deviceErrorIf (name.pathLength ≠ 1)
  let same ← matchIdentifier lookup name.namePathStart
  if same then do
    setIdentifier (start.currentIdentifier + 1)
    contextPeekBytes lookup 1
    if start.currentIdentifier + 1 = lookup.pathEnd then do
      setIdentifier start.currentIdentifier
      let _ ← orDeviceError (parseNameString lookup)
      skipBlock bankEnd start.currentIdentifier
    else do
      let name ← orDeviceError (parseNameString lookup)
      deviceErrorIfBehind bankEnd
      matchLastIdentifier lookup start.currentOpcode bankEnd name
  else skipBlock bankEnd start.currentIdentifier

def parseIndexField : Parser Status := function do
  contextHasWork
  contextIncreaseNesting .indexField
  let start ← Action.get
  let fieldEnd ← parseBlockEnd lookup
  deviceErrorUnlessBefore fieldEnd
  let name ← orDeviceError (parseNameString lookup)
  deviceErrorUnlessBefore fieldEnd
  deviceErrorIf (name.pathLength ≠ 1)
  let same ← matchIdentifier lookup name.namePathStart
  if same then do
    setIdentifier (start.currentIdentifier + 1)
    deviceErrorIf (start.currentIdentifier + 1 = lookup.pathEnd)
    contextPeekBytes lookup 1
    let name ← orDeviceError (parseNameString lookup)
    deviceErrorUnlessBefore fieldEnd
    matchLastIdentifier lookup start.currentOpcode fieldEnd name
  else do
    let _ ← orDeviceError (parseNameString lookup)
    skipBlock fieldEnd start.currentIdentifier

/-- Further bytes of a CreateField, which has one argument more than its
siblings. -/
def consumeIfCreateField (start bytes : Nat) : Parser Unit := do
  let opcode ← readTable lookup (start - 1)
  if opcode = amlExtCreateFieldOp then contextConsumeBytes lookup bytes else pure ()

def skipIndex : Parser Unit := do
  let byte ← currentByte lookup
  match integerSize byte with
  | some size => contextConsumeBytes lookup size
  | none => pure ()

/-- The created name against the identifier behind the current one, which the
code takes to exist. -/
def compareNextIdentifier (name : Nat) : Parser Bool := do
  let ctx ← Action.get
  setIdentifier (ctx.currentIdentifier + 1)
  let same ← matchIdentifier lookup name
  Action.emit [.compareNext ctx.currentIdentifier]
  pure same

def matchCreatedField (start name : Nat) : Parser Status := do
  let ctx ← Action.get
  let same ← compareNextIdentifier lookup name
  setIdentifier ctx.currentIdentifier
  if same = true ∧ ctx.currentIdentifier + 2 = lookup.pathEnd then do
    let reached ← countEntry lookup
    if reached then do
      setIdentifier (ctx.currentIdentifier + 2)
      foundAt start
    else do
      contextDecreaseNesting
      pure .notFound
  else do
    contextDecreaseNesting
    pure .notFound

def parseCreateField : Parser Status := function do
  contextHasWork
  contextIncreaseNesting .createField
  let start ← Action.get
  let byte ← currentByte lookup
  if amlArg0 ≤ byte ∧ byte ≤ amlArg6 then do
    contextConsumeBytes lookup 5
    consumeIfCreateField lookup start.currentOpcode 4
    contextPeekBytes lookup 1
    let _ ← orDeviceError (parseNameString lookup)
    contextDecreaseNesting
    pure .notFound
  else do
    let name ← orDeviceError (parseNameString lookup)
    deviceErrorIf (name.pathLength ≠ 1)
    let matched ← matchIdentifier lookup name.namePathStart
    contextPeekBytes lookup 1
    skipIndex lookup
    consumeIfCreateField lookup start.currentOpcode 1
    contextPeekBytes lookup 1
    let name ← orDeviceError (parseNameString lookup)
    deviceErrorIf (name.pathLength ≠ 1)
    if matched then matchCreatedField lookup start.currentOpcode name.namePathStart
    else do
      contextDecreaseNesting
      pure .notFound

end Blocks

section Terms

/-- The terms of a scope up to its end; any status but `notFound` leaves it. -/
def scopeTerms (body : Parser Status) (scopeEnd : Nat) : Nat → Parser Unit
  | 0 => exhausted
  | fuel + 1 => do
      let ctx ← Action.get
      if ctx.currentOpcode < scopeEnd then do
        contextHasWork
        let status ← body
        if status = .notFound then scopeTerms body scopeEnd fuel else returnStatus status
      else pure ()

def scopeMatched (start : Nat) : Parser Unit := do
  let ctx ← Action.get
  if ctx.currentIdentifier = lookup.pathEnd then do
    let reached ← countEntry lookup
    if reached then do
      let status ← foundAt start
      returnStatus status
    else setIdentifier 0
  else pure ()

def startOverIf (isRootPath : Bool) : Parser Unit :=
  if isRootPath then setIdentifier 0 else pure ()

def parseScopeOrDevice (body : Parser Status) (fuel : Nat) : Parser Status := function do
  contextHasWork
  contextIncreaseNesting .scopeOrDevice
  let start ← Action.get
  let scopeEnd ← parseBlockEnd lookup
  contextPeekBytes lookup 1
  let name ← orDeviceError (parseNameString lookup)
  deviceErrorIfBehind scopeEnd
  startOverIf name.isRootPath
  matchScopeName lookup name.namePathStart name.pathLength
  scopeMatched lookup start.currentOpcode
  scopeTerms body scopeEnd fuel
  setIdentifier start.currentIdentifier
  contextDecreaseNesting
  pure .notFound

def enterTerm (status : Status) : Parser Unit := do
  let ctx ← Action.get
  Action.emit (if status = .deviceError then
    [.resume ctx.currentIdentifier ctx.entriesFound] else [])
  contextHasWork

def skipByte : Parser Unit := do
  let ctx ← Action.get
  Action.emit [.skip ctx.currentOpcode]
  moveOpcode (ctx.currentOpcode + 1)

def skipFailed (status : Status) : Parser Unit :=
  if status = .deviceError then skipByte else pure ()

def noteGoesOn (term bodyEnd : Nat) (status : Status) : Parser Unit := do
  let ctx ← Action.get
  Action.emit (if status = .deviceError ∧ ctx.currentOpcode < bodyEnd then [.goesOn term] else [])

def bodyTerms (body : Parser Status) (bodyEnd : Nat) : Nat → Status → Parser Status
  | 0, _ => exhausted
  | fuel + 1, status => do
      let ctx ← Action.get
      if status ≠ .success ∧ ctx.currentOpcode < bodyEnd then do
        enterTerm status
        let next ← body
        skipFailed next
        noteGoesOn ctx.currentOpcode bodyEnd next
        bodyTerms body bodyEnd fuel next
      else pure status

def parseElse (body : Parser Status) (fuel identifier : Nat) : Parser Status := do
  contextAdvanceOpcode lookup
  let elseEnd ← parseBlockEnd lookup
  let status ← bodyTerms body elseEnd fuel .notFound
  let ctx ← Action.get
  if elseEnd < ctx.currentOpcode ∨ status = .deviceError then pure .deviceError
  else if status = .success then do
    contextDecreaseNesting
    pure .success
  else do
    setIdentifier identifier
    contextDecreaseNesting
    pure .notFound

def clampOpcode (bodyEnd : Nat) : Parser Unit := do
  let ctx ← Action.get
  if bodyEnd < ctx.currentOpcode then moveOpcode bodyEnd else pure ()

def parseIfElse (body : Parser Status) (fuel : Nat) : Parser Status := function do
  contextHasWork
  contextIncreaseNesting .ifElse
  let start ← Action.get
  let ifEnd ← parseBlockEnd lookup
  let status ← bodyTerms body ifEnd fuel .notFound
  if status = .deviceError then pure .deviceError
  else if status = .success then do
    contextDecreaseNesting
    pure .success
  else do
    clampOpcode ifEnd
    setIdentifier start.currentIdentifier
    contextPeekBytes lookup 1
    let byte ← currentByte lookup
    if byte = amlElseOp then parseElse lookup body fuel start.currentIdentifier
    else do
      contextDecreaseNesting
      pure .notFound

inductive Term where
  | aliasName
  | scopeOrDevice
  | name
  | ignored
  | bankField
  | createField
  | external
  | opRegion
  | powerRes
  | processor
  | thermalZone
  | method
  | ifElse
  | event
  | field
  | indexField
  | mutex

def termOf (opcode : UInt8) : Option Term :=
  if opcode = amlAliasOp then some .aliasName
  else if opcode = amlScopeOp then some .scopeOrDevice
  else if opcode = amlNameOp then some .name
  else if opcode = amlZeroOp ∨ opcode = amlExtOp then some .ignored
  else if opcode = amlExtBankFieldOp then some .bankField
  else if opcode = amlCreateDwordFieldOp ∨ opcode = amlCreateWordFieldOp ∨
      opcode = amlCreateByteFieldOp ∨ opcode = amlCreateBitFieldOp ∨
      opcode = amlCreateQwordFieldOp ∨ opcode = amlExtCreateFieldOp then some .createField
  else if opcode = amlExternalOp then some .external
  else if opcode = amlExtRegionOp then some .opRegion
  else if opcode = amlExtPowerResOp then some .powerRes
  else if opcode = amlExtProcessorOp then some .processor
  else if opcode = amlExtThermalZoneOp then some .thermalZone
  else if opcode = amlMethodOp then some .method
  else if opcode = amlIfOp then some .ifElse
  else if opcode = amlExtDeviceOp then some .scopeOrDevice
  else if opcode = amlExtEventOp then some .event
  else if opcode = amlExtFieldOp then some .field
  else if opcode = amlExtIndexFieldOp then some .indexField
  else if opcode = amlExtMutexOp then some .mutex
  else none

def parseTermOf (body : Parser Status) (fuel : Nat) : Term → Parser Status
  | .aliasName => parseAlias lookup
  | .scopeOrDevice => parseScopeOrDevice lookup body fuel
  | .name => parseName lookup
  | .ignored => pure .notFound
  | .bankField => parseBankField lookup
  | .createField => parseCreateField lookup
  | .external => parseExternal lookup
  | .opRegion => parseOpRegion lookup
  | .powerRes => parsePowerRes lookup
  | .processor => parseProcessor lookup
  | .thermalZone => parseThermalZone lookup
  | .method => parseMethod lookup
  | .ifElse => parseIfElse lookup body fuel
  | .event => parseEvent lookup
  | .field => parseField lookup
  | .indexField => parseIndexField lookup
  | .mutex => parseMutex lookup

def dispatchTerm (body : Parser Status) (fuel : Nat) (opcode : UInt8) : Parser Status :=
  match termOf opcode with
  | some term => do
      contextAdvanceOpcode lookup
      parseTermOf lookup body fuel term
  | none => pure .deviceError

def parseTermBody : Nat → Parser Status
  | 0 => exhausted
  | fuel + 1 => function do
      contextIncreaseNesting .term
      let opcode ← currentByte lookup
      let status ← dispatchTerm lookup (parseTermBody fuel) fuel opcode
      contextDecreaseNesting
      pure status

def internalAcpiParseTerm (fuel : Nat) : Parser Status := do
  contextHasWork
  parseTermBody lookup fuel

def findTerms (termFuel : Nat) : Nat → Parser Status
  | 0 => exhausted
  | fuel + 1 => do
      let ctx ← Action.get
      if ctx.currentOpcode < lookup.tableEnd then do
        Action.emit [.search]
        let status ← internalAcpiParseTerm lookup termFuel
        if status = .notFound then findTerms termFuel fuel else pure status
      else pure .notFound

end Terms

end Parsers

section Lookup

def translateCharacter (ch : UInt8) : Option UInt8 :=
  if 0x61 ≤ ch ∧ ch ≤ 0x7A then some (0x41 + (ch - 0x61))
  else if 0x41 ≤ ch ∧ ch ≤ 0x5A then some (0x41 + (ch - 0x41))
  else if 0x30 ≤ ch ∧ ch ≤ 0x39 then some (0x30 + (ch - 0x30))
  else if ch = 0x5F then some 0x5F
  else none

/-- Four characters, the missing ones underscores; the length is a `UINT8`. -/
def translateNameToOpcodes (name : List UInt8) : Option UInt32 :=
  let nameLength := name.length % 256
  if identLen < nameLength then none
  else (List.range identLen).foldl
    (fun opcodes index => do
      let front ← opcodes
      let opcode ← if index < nameLength then translateCharacter (name.getD index 0) else some 0x5F
      some (UInt32.ofNat (front.toNat * 256 ||| opcode.toNat)))
    (some 0)

def getOpcodeArray (pathString : List UInt8) : Option (List UInt32) :=
  let path := if pathString.head? = some 0x5C then pathString.tail else pathString
  if path = [] then none
  else (path.splitOn 0x2E).mapM fun name => if name = [] then none else translateNameToOpcodes name

/-- The arguments of `AcpiFindEntryInMemory`: the memory from `Table` on, and
what lies behind the allocated path. -/
structure Search where
  memory : AddressSpace.Memory
  pathString : List UInt8
  behindPath : Nat → UInt32
  entry : UInt8
  tableLength : UInt32

namespace Search

variable (search : Search)

def length : Nat :=
  if 0 < search.tableLength.toNat then search.tableLength.toNat
  else AddressSpace.load search.memory 4 4

def identifiers : List UInt32 := (getOpcodeArray search.pathString).getD []

def lookup : Lookup where
  table := search.memory
  tableEnd := search.length
  path := fun index => (search.identifiers[index]?).getD (search.behindPath index)
  pathEnd := search.identifiers.length
  requiredEntry := search.entry.toNat

/-- `sizeof (EFI_ACPI_COMMON_HEADER)` and `sizeof (EFI_ACPI_DESCRIPTION_HEADER)`. -/
def commonHeaderSize : Nat := 8

def descriptionHeaderSize : Nat := 36

def start : Context where
  currentOpcode := descriptionHeaderSize
  currentIdentifier := 0
  nesting := 0
  entriesFound := 0
  result := 0

def readLength : Parser Unit :=
  if 0 < search.tableLength.toNat then pure ()
  else Action.emit [.headerLength, .tableRead 4, .tableRead 5, .tableRead 6, .tableRead 7]

def acpiFindEntryInMemory (fuel : Nat) : Parser Status := do
  if 0 < search.tableLength.toNat ∧ search.tableLength.toNat < commonHeaderSize then
    pure .loadError
  else do
    search.readLength
    if search.length ≤ descriptionHeaderSize then pure .deviceError
    else if (getOpcodeArray search.pathString).isNone then pure .invalidParameter
    else findTerms search.lookup fuel fuel

def trace (fuel : Nat) : List Mark := (search.acpiFindEntryInMemory fuel).marks start

end Search

end Lookup

end OpenCore.AcpiParser
