import OpenCore.Base
import OpenCore.ByteBuffer

/-!
`VirtualFile.c`: files of the virtual file system, with the memory of the caller, where
`NULL` is 0. A virtual file is read from its buffer. A real one passes its operations to
the original file, whose code is a parameter; `calls` records what is called there. `This`
is the file itself and not `NULL`.
-/

namespace OpenCore.VirtualFile

open Base ByteBuffer List

section Code

inductive Status where
  | success
  | warning (code : Nat)
  | error (code : Nat)
  deriving DecidableEq

namespace Status

def warnDeleteFailure : Status := .warning 2
def invalidParameter : Status := .error 2
def unsupported : Status := .error 3
def bufferTooSmall : Status := .error 5
def deviceError : Status := .error 7
def writeProtected : Status := .error 8
def outOfResources : Status := .error 9
def notFound : Status := .error 14

def isError : Status → Bool
  | .error _ => true
  | _ => false

end Status

structure OpenArguments where
  newHandle : Nat
  fileName : Nat
  openMode : Nat
  attributes : Nat
  deriving DecidableEq

/-- The operations of `EFI_FILE_PROTOCOL`, with the arguments behind `This`. -/
inductive Operation where
  | open (arguments : OpenArguments)
  | close
  | delete
  | read (bufferSize buffer : Nat)
  | write (bufferSize buffer : Nat)
  | getPosition (position : Nat)
  | setPosition (position : Nat)
  | getInfo (informationType bufferSize buffer : Nat)
  | setInfo (informationType bufferSize buffer : Nat)
  | flush
  | openEx (arguments : OpenArguments) (token : Nat)
  | readEx (token : Nat)
  | writeEx (token : Nat)
  | flushEx (token : Nat)
  deriving DecidableEq

inductive Callee where
  | protocol (file : Nat)
  | callback (openCallback : Nat)
  deriving DecidableEq

structure Invocation where
  callee : Callee
  this : Nat
  operation : Operation
  deriving DecidableEq

/-- The code outside: what a call answers may depend on all calls before it. -/
structure Externals where
  answer : List Invocation → Bytes → Status × Bytes × List Nat
  allocatePool : List Invocation → Bytes → Nat
  fileInfoGuid : Bytes

/-- A `VIRTUAL_FILE_DATA`, its name with the terminator, and what its functions change around
it. `created` are the real files made, with the original and the callback of each. -/
structure State where
  this : Nat
  originalProtocol : Nat
  openCallback : Nat
  fileName : Bytes
  fileBuffer : Bytes
  modificationTime : Bytes
  filePosition : Nat
  released : Bool
  memory : Bytes
  signalled : List Nat
  calls : List Invocation
  created : List (Nat × Nat × Nat)
  deriving DecidableEq

variable (env : Externals)

def invoke (invocation : Invocation) (state : State) : Status × State :=
  let calls := invocation :: state.calls
  let (status, memory, events) := env.answer calls state.memory
  (status, { state with
    memory := memory, signalled := events ++ state.signalled, calls := calls })

/-- `Data->OriginalProtocol->Operation (Data->OriginalProtocol, ...)`. -/
def original (operation : Operation) (state : State) : Status × State :=
  invoke env ⟨.protocol state.originalProtocol, state.originalProtocol, operation⟩ state

def release (result : Status × State) : Status × State :=
  (result.1, { result.2 with released := true })

def createRealFile (originalFile openCallback : Nat) (closeOnFailure : Bool) (file : Nat)
    (state : State) : Status × State :=
  let data := env.allocatePool state.calls state.memory
  if data = 0 then
    if closeOnFailure then
      (.outOfResources, (invoke env ⟨.protocol originalFile, originalFile, .close⟩ state).2)
    else (.outOfResources, state)
  else (.success, { state with
    memory := store state.memory 8 file data
    created := (data, originalFile, openCallback) :: state.created })

/-- `OcSafeFileOpen`, which takes a handle opened for reading in spite of a write protection. -/
def ocSafeFileOpen (directory : Nat) (arguments : OpenArguments) (state : State) :
    Status × State :=
  let (status, state) := invoke env ⟨.protocol directory, directory, .open arguments⟩
    { state with memory := store state.memory 8 arguments.newHandle 0 }
  if status = .writeProtected ∧ arguments.openMode = 1 ∧ arguments.attributes = 0 ∧
      load state.memory 8 arguments.newHandle ≠ 0 then (.success, state)
  else (status, state)

def openOriginal (arguments : OpenArguments) (state : State) : Status × State :=
  let (status, state) := ocSafeFileOpen env state.originalProtocol arguments state
  let newHandle := arguments.newHandle
  if status.isError then (status, state)
  else createRealFile env (load state.memory 8 newHandle) 0 true newHandle state

def virtualFileOpen (arguments : OpenArguments) (state : State) : Status × State :=
  if arguments.newHandle = 0 ∨ arguments.fileName = 0 then (.invalidParameter, state)
  else if state.openCallback ≠ 0 then invoke env
    ⟨.callback state.openCallback, state.originalProtocol, .open arguments⟩ state
  else if state.originalProtocol ≠ 0 then openOriginal env arguments state
  else (.notFound, state)

def virtualFileClose (state : State) : Status × State :=
  if state.originalProtocol = 0 then release (.success, state)
  else release (original env .close state)

def virtualFileDelete (state : State) : Status × State :=
  if state.originalProtocol = 0 then release (.warnDeleteFailure, state)
  else release (original env .close state)

def virtualFileRead (bufferSize buffer : Nat) (state : State) : Status × State :=
  if bufferSize = 0 ∨ buffer = 0 then (.invalidParameter, state)
  else if state.originalProtocol = 0 then
    if state.filePosition > state.fileBuffer.length then (.deviceError, state)
    else
      let readSize := state.fileBuffer.length - state.filePosition
      let requested := load state.memory 8 bufferSize
      let (memory, readBufferSize) :=
        if requested ≥ readSize then (store state.memory 8 bufferSize readSize, readSize)
        else (state.memory, requested)
      if readBufferSize > 0 then
        let data := (state.fileBuffer.drop state.filePosition).take readBufferSize
        (.success, { state with
          memory := overlay memory buffer data
          filePosition := state.filePosition + readBufferSize })
      else (.success, { state with memory := memory })
  else original env (.read bufferSize buffer) state

-- A virtual file cannot be written.
def writing (operation : Operation) (state : State) : Status × State :=
  if state.originalProtocol = 0 then (.writeProtected, state)
  else original env operation state

def virtualFileWrite (bufferSize buffer : Nat) : State → Status × State :=
  writing env (.write bufferSize buffer)

def virtualFileSetInfo (informationType bufferSize buffer : Nat) : State → Status × State :=
  writing env (.setInfo informationType bufferSize buffer)

def virtualFileFlush : State → Status × State := writing env .flush

def virtualFileSetPosition (position : Nat) (state : State) : Status × State :=
  if state.originalProtocol = 0 then
    if position = 0xFFFFFFFFFFFFFFFF then
      (.success, { state with filePosition := state.fileBuffer.length })
    else (.success, { state with filePosition := position })
  else original env (.setPosition position) state

def virtualFileGetPosition (position : Nat) (state : State) : Status × State :=
  if position = 0 then (.invalidParameter, state)
  else if state.originalProtocol = 0 then
    (.success, { state with memory := store state.memory 8 position state.filePosition })
  else original env (.getPosition position) state

/-- The `EFI_FILE_INFO` of a virtual file. -/
def fileInfo (state : State) : Bytes :=
  let fileSize := encode 8 state.fileBuffer.length
  encode 8 (80 + state.fileName.length) ++ fileSize ++ fileSize ++ state.modificationTime ++
    state.modificationTime ++ state.modificationTime ++ encode 8 1 ++ state.fileName

def virtualFileGetInfo (informationType bufferSize buffer : Nat) (state : State) :
    Status × State :=
  if informationType = 0 ∨ bufferSize = 0 then (.invalidParameter, state)
  else if state.originalProtocol = 0 then
    if (state.memory.drop informationType).take 16 = env.fileInfoGuid then
      let infoSize := 80 + state.fileName.length
      let sized := { state with memory := store state.memory 8 bufferSize infoSize }
      if load state.memory 8 bufferSize < infoSize then (.bufferTooSmall, sized)
      else if buffer = 0 then (.invalidParameter, sized)
      else (.success, { sized with memory := overlay sized.memory buffer (fileInfo state) })
    else (.unsupported, state)
  else original env (.getInfo informationType bufferSize buffer) state

/-- The fields of an `EFI_FILE_IO_TOKEN`: the event, the status, the size and the buffer. -/
def tokenStatus (token : Nat) : Nat := token + 8
def tokenBufferSize (token : Nat) : Nat := token + 16
def tokenBuffer (state : State) (token : Nat) : Nat := load state.memory 8 (token + 24)

def signal (token : Nat) (result : Status × State) : Status × State :=
  let (status, state) := result
  let event := load state.memory 8 token
  if ¬ status.isError ∧ event ≠ 0 then
    (status, { state with
      memory := store state.memory 8 (tokenStatus token) 0
      signalled := event :: state.signalled })
  else (status, state)

def virtualFileOpenEx (arguments : OpenArguments) (token : Nat) (state : State) :
    Status × State :=
  signal token (virtualFileOpen env arguments state)

/-- A call of the original's function on `This`. -/
def originalOnThis (operation : Operation) (state : State) : Status × State :=
  invoke env ⟨.protocol state.originalProtocol, state.this, operation⟩ state

def virtualFileReadEx (token : Nat) (state : State) : Status × State :=
  if token = 0 then (.invalidParameter, state)
  else if state.originalProtocol = 0 then signal token
    (virtualFileRead env (tokenBuffer state token) (tokenBufferSize token) state)
  else originalOnThis env (.readEx token) state

def writingEx (operation : Operation) (state : State) : Status × State :=
  if state.originalProtocol = 0 then (.writeProtected, state)
  else originalOnThis env operation state

def virtualFileWriteEx (token : Nat) : State → Status × State :=
  writingEx env (.writeEx token)

def virtualFileFlushEx (token : Nat) : State → Status × State :=
  writingEx env (.flushEx token)

/-- The functions of `mVirtualFileProtocolTemplate`. -/
def perform : Operation → State → Status × State
  | .open arguments => virtualFileOpen env arguments
  | .close => virtualFileClose env
  | .delete => virtualFileDelete env
  | .read bufferSize buffer => virtualFileRead env bufferSize buffer
  | .write bufferSize buffer => virtualFileWrite env bufferSize buffer
  | .getPosition position => virtualFileGetPosition env position
  | .setPosition position => virtualFileSetPosition env position
  | .getInfo informationType bufferSize buffer =>
    virtualFileGetInfo env informationType bufferSize buffer
  | .setInfo informationType bufferSize buffer =>
    virtualFileSetInfo env informationType bufferSize buffer
  | .flush => virtualFileFlush env
  | .openEx arguments token => virtualFileOpenEx env arguments token
  | .readEx token => virtualFileReadEx env token
  | .writeEx token => virtualFileWriteEx env token
  | .flushEx token => virtualFileFlushEx env token

end Code

section RealFile
variable {env : Externals} {state : State}

/-- What passing an operation on means: the original's own function is called for the
original with the same arguments, and what it answers is returned. The file that `Open`
gives is wrapped, and the wrapper of a closed or deleted file is released. -/
def passedOn (env : Externals) : Operation → State → Status × State
  | .open arguments, state => openOriginal env arguments state
  | .close, state => release (original env .close state)
  | .delete, state => release (original env .delete state)
  | operation, state => original env operation state

/-- A file of `CreateRealFile` for an original, to which its own memory does not belong. -/
structure Real (state : State) : Prop where
  original : state.originalProtocol ≠ 0
  apart : state.this ≠ state.originalProtocol

/-- No argument is missing, no callback answers in place of the original, and the operation
is neither asynchronous nor a deletion. -/
def Straight (state : State) : Operation → Prop
  | .open arguments =>
    arguments.newHandle ≠ 0 ∧ arguments.fileName ≠ 0 ∧ state.openCallback = 0
  | .read bufferSize buffer => bufferSize ≠ 0 ∧ buffer ≠ 0
  | .getPosition position => position ≠ 0
  | .getInfo informationType bufferSize _ => informationType ≠ 0 ∧ bufferSize ≠ 0
  | .delete | .openEx .. | .readEx _ | .writeEx _ | .flushEx _ => False
  | .close | .write .. | .setPosition _ | .setInfo .. | .flush => True

theorem invoke_calls (invocation : Invocation) :
    (invoke env invocation state).2.calls = invocation :: state.calls := rfl

theorem original_calls (operation : Operation) :
    (original env operation state).2.calls =
      ⟨.protocol state.originalProtocol, state.originalProtocol, operation⟩ :: state.calls := rfl

theorem release_calls (result : Status × State) : (release result).2.calls = result.2.calls := rfl

theorem signal_calls (token : Nat) (result : Status × State) :
    (signal token result).2.calls = result.2.calls := by
  rw [signal]
  split <;> rfl

/-- Behind the call of the original stands at most a `Close` of the file it opened. -/
theorem openOriginal_calls (env : Externals) (arguments : OpenArguments) (state : State) :
    ∃ closed, (openOriginal env arguments state).2.calls = closed ++
        ⟨.protocol state.originalProtocol, state.originalProtocol, .open arguments⟩ ::
          state.calls ∧ ∀ invocation ∈ closed, invocation.operation = .close := by
  rw [openOriginal, ocSafeFileOpen]
  simp only
  split
  all_goals
    split
    · exact ⟨[], rfl, nofun⟩
    · rw [createRealFile]
      split
      · exact ⟨[_], rfl, by simp⟩
      · exact ⟨[], rfl, nofun⟩

theorem virtualFileOpen_real (real : Real state) (arguments : OpenArguments) :
    virtualFileOpen env arguments state = openOriginal env arguments state ↔
      Straight state (.open arguments) := by
  obtain ⟨closed, calls, -⟩ := openOriginal_calls env arguments state
  rw [virtualFileOpen, Straight]
  split
  next missing =>
    refine ⟨fun same => ?_, fun given => absurd missing (by tauto)⟩
    have lengths := congrArg length (calls.symm.trans (congrArg (·.2.calls) same.symm))
    simp at lengths
    omega
  next given =>
    rw [not_or] at given
    split
    next called =>
      refine ⟨fun same => ?_, fun free => absurd free.2.2 called⟩
      have logged := calls.symm.trans (congrArg (·.2.calls) same.symm)
      rw [invoke_calls] at logged
      cases closed with
      | nil => simp at logged
      | cons =>
        have lengths := congrArg length logged
        simp at lengths
        omega
    next uncalled =>
      rw [if_pos real.original]
      exact ⟨fun _ => ⟨given.1, given.2, not_not.mp uncalled⟩, fun _ => rfl⟩

theorem virtualFileOpenEx_calls (env : Externals) (arguments : OpenArguments)
    (token : Nat) (state : State) :
    ∃ calls, (virtualFileOpenEx env arguments token state).2.calls = calls ++ state.calls ∧
      ∀ invocation ∈ calls, invocation.operation ≠ .openEx arguments token := by
  rw [virtualFileOpenEx, signal_calls, virtualFileOpen]
  split
  · exact ⟨[], rfl, nofun⟩
  split
  · exact ⟨[_], rfl, by simp⟩
  split
  · obtain ⟨closed, calls, closes⟩ := openOriginal_calls env arguments state
    refine ⟨closed ++ [_], by rw [calls, append_assoc, singleton_append], ?_⟩
    intro invocation member
    rcases mem_append.mp member with early | late
    · rw [closes invocation early]
      nofun
    · rw [mem_singleton.mp late]
      nofun
  · exact ⟨[], rfl, nofun⟩

/-- A real file passes an operation on to the original exactly when it is straight. -/
theorem perform_real (real : Real state) (operation : Operation) :
    perform env operation state = passedOn env operation state ↔ Straight state operation := by
  have onThis : ∀ operation, originalOnThis env operation state ≠
      original env operation state := by
    intro operation same
    have calls := congrArg (·.2.calls) same
    simp [originalOnThis, original, invoke, real.apart] at calls
  have unpassed : ∀ status operation, (status, state) ≠ original env operation state := by
    intro status operation same
    have calls := congrArg (·.2.calls) same
    simp [original_calls] at calls
  cases operation with
  | «open» arguments => exact virtualFileOpen_real real arguments
  | close =>
    simp only [perform, passedOn, Straight, virtualFileClose, if_neg real.original]
  | delete =>
    simp only [perform, passedOn, Straight, virtualFileDelete, if_neg real.original, iff_false]
    intro same
    have calls := congrArg (·.2.calls) same
    simp [release_calls, original_calls] at calls
  | read bufferSize buffer =>
    simp only [perform, passedOn, Straight, virtualFileRead, if_neg real.original]
    split
    next missing => exact ⟨fun same => absurd same (unpassed _ _), fun given => by omega⟩
    next given => exact ⟨fun _ => not_or.mp given, fun _ => rfl⟩
  | getPosition position =>
    simp only [perform, passedOn, Straight, virtualFileGetPosition, if_neg real.original]
    split
    next missing => exact ⟨fun same => absurd same (unpassed _ _), fun given => absurd missing given⟩
    next given => exact ⟨fun _ => given, fun _ => rfl⟩
  | getInfo informationType bufferSize buffer =>
    simp only [perform, passedOn, Straight, virtualFileGetInfo, if_neg real.original]
    split
    next missing => exact ⟨fun same => absurd same (unpassed _ _), fun given => by omega⟩
    next given => exact ⟨fun _ => not_or.mp given, fun _ => rfl⟩
  | setPosition position =>
    simp only [perform, passedOn, Straight, virtualFileSetPosition, if_neg real.original]
  | write | setInfo | flush =>
    simp only [perform, passedOn, Straight, virtualFileWrite, virtualFileSetInfo,
      virtualFileFlush, writing, if_neg real.original]
  | openEx arguments token =>
    simp only [perform, passedOn, Straight, iff_false]
    intro same
    obtain ⟨calls, logged, others⟩ := virtualFileOpenEx_calls env arguments token state
    rw [same, original_calls, ← singleton_append] at logged
    rw [← append_cancel_right logged] at others
    exact others _ mem_cons_self rfl
  | readEx token =>
    simp only [perform, passedOn, Straight, virtualFileReadEx, if_neg real.original, iff_false]
    split
    · exact unpassed _ _
    · exact onThis _
  | writeEx | flushEx =>
    simp only [perform, passedOn, Straight, virtualFileWriteEx, virtualFileFlushEx, writingEx,
      if_neg real.original, iff_false]
    exact onThis _

end RealFile

section ByteArray

/-- A read of an array of bytes at a cursor: it answers the size of what it read. -/
def readBytes (bufferSize buffer : Nat) (state : State) : Status × State :=
  if bufferSize = 0 ∨ buffer = 0 then (.invalidParameter, state)
  else if state.fileBuffer.length < state.filePosition then (.deviceError, state)
  else
    let data := (state.fileBuffer.drop state.filePosition).take (load state.memory 8 bufferSize)
    (.success, { state with
      memory := overlay (store state.memory 8 bufferSize data.length) buffer data
      filePosition := state.filePosition + data.length })

inductive Call where
  | setPosition (position : Nat)
  | getPosition (position : Nat)
  | read (bufferSize buffer : Nat)
  | readEx (token : Nat)

def step (env : Externals) (state : State) : Call → Status × State
  | .setPosition position => perform env (.setPosition position) state
  | .getPosition position => perform env (.getPosition position) state
  | .read bufferSize buffer => perform env (.read bufferSize buffer) state
  | .readEx token => perform env (.readEx token) state

def arrayStep (state : State) : Call → Status × State
  | .setPosition position =>
    (.success, { state with filePosition :=
      if position = u64 - 1 then state.fileBuffer.length else position })
  | .getPosition position =>
    if position = 0 then (.invalidParameter, state)
    else (.success, { state with memory := store state.memory 8 position state.filePosition })
  | .read bufferSize buffer => readBytes bufferSize buffer state
  | .readEx token =>
    if token = 0 then (.invalidParameter, state)
    else signal token (readBytes (tokenBufferSize token) (tokenBuffer state token) state)

def run (next : State → Call → Status × State) : List Call → State → List Status × State
  | [], state => ([], state)
  | call :: rest, state =>
    let (status, state) := next state call
    let (statuses, state) := run next rest state
    (status :: statuses, state)

variable {env : Externals} {state : State}

theorem store_load (memory : Bytes) (width offset : Nat) :
    store memory width offset (load memory width offset) = memory := by
  induction width generalizing offset with
  | zero => rfl
  | succ width ih =>
    have low := byteAt_lt memory offset
    have byte : (byteAt memory offset + 256 * load memory width (offset + 1)) / 256 =
        load memory width (offset + 1) := by omega
    have value : UInt8.ofNat (byteAt memory offset + 256 * load memory width (offset + 1)) =
        memory.getD offset 0 := by
      apply UInt8.toNat_inj.mp
      rw [UInt8.toNat_ofNat', Nat.add_mul_mod_self_left, Nat.mod_eq_of_lt low, byteAt]
    have kept : memory.set offset (memory.getD offset 0) = memory := by
      by_cases inside : offset < memory.length
      · rw [getD_eq_getElem?_getD, getElem?_eq_getElem inside, Option.getD_some, set_getElem_self]
      · rw [set_eq_of_length_le (by omega)]
    rw [load, store, value, kept, byte, ih]

theorem copied_eq (state : State) (memory : Bytes) (buffer size : Nat) :
    (if size > 0 then
      (Status.success, { state with
        memory := overlay memory buffer ((state.fileBuffer.drop state.filePosition).take size)
        filePosition := state.filePosition + size })
    else (.success, { state with memory := memory })) = (.success, { state with
      memory := overlay memory buffer ((state.fileBuffer.drop state.filePosition).take size)
      filePosition := state.filePosition + size }) := by
  cases size with
  | zero => rfl
  | succ size => rw [if_pos (Nat.succ_pos size)]

/-- A read is the read of an array of bytes. -/
theorem virtualFileRead_eq (virtual : state.originalProtocol = 0) (bufferSize buffer : Nat) :
    virtualFileRead env bufferSize buffer state = readBytes bufferSize buffer state := by
  rw [virtualFileRead, readBytes, if_pos virtual]
  split
  · rfl
  split
  · rfl
  have size : ((state.fileBuffer.drop state.filePosition).take
      (load state.memory 8 bufferSize)).length =
      min (load state.memory 8 bufferSize) (state.fileBuffer.length - state.filePosition) := by
    rw [length_take, length_drop]
  simp only [size]
  by_cases whole : load state.memory 8 bufferSize ≥
      state.fileBuffer.length - state.filePosition
  · have data : (state.fileBuffer.drop state.filePosition).take
        (load state.memory 8 bufferSize) = (state.fileBuffer.drop state.filePosition).take
          (state.fileBuffer.length - state.filePosition) := by
      rw [take_of_length_le (by rw [length_drop]; exact whole),
        take_of_length_le (by rw [length_drop])]
    rw [if_pos whole, min_eq_right whole, data]
    exact copied_eq ..
  · rw [if_neg whole, min_eq_left (by omega), store_load]
    exact copied_eq ..

/-- The buffer and the size of a `ReadEx`, which are passed in each other's place, make no
difference. -/
def Unswapped (state : State) : Call → Prop
  | .readEx token => token = 0 ∨ tokenBuffer state token = 0 ∨
      tokenBuffer state token = tokenBufferSize token ∨
      state.fileBuffer.length < state.filePosition
  | _ => True

theorem readBytes_comm {state : State} {bufferSize buffer : Nat}
    (same : buffer = 0 ∨ buffer = bufferSize ∨ state.fileBuffer.length < state.filePosition) :
    readBytes buffer bufferSize state = readBytes bufferSize buffer state := by
  rcases same with null | same | beyond
  · rw [readBytes, readBytes, if_pos (Or.inl null), if_pos (Or.inr null)]
  · rw [same]
  · rw [readBytes, readBytes, if_pos beyond, if_pos beyond]
    simp only [or_comm]

theorem step_eq (virtual : state.originalProtocol = 0) {call : Call}
    (unswapped : Unswapped state call) : step env state call = arrayStep state call := by
  cases call with
  | setPosition position =>
    have last : u64 - 1 = 0xFFFFFFFFFFFFFFFF := rfl
    rw [step, perform, arrayStep, virtualFileSetPosition, if_pos virtual, last]
    split <;> rfl
  | getPosition position =>
    rw [step, perform, arrayStep, virtualFileGetPosition, if_pos virtual]
  | read bufferSize buffer => exact virtualFileRead_eq virtual ..
  | readEx token =>
    rw [step, perform, arrayStep, virtualFileReadEx, if_pos virtual, virtualFileRead_eq virtual]
    by_cases absent : token = 0
    · rw [if_pos absent, if_pos absent]
    rw [if_neg absent, if_neg absent]
    rw [readBytes_comm (unswapped.resolve_left absent)]

theorem readBytes_original (bufferSize buffer : Nat) :
    (readBytes bufferSize buffer state).2.originalProtocol = state.originalProtocol := by
  rw [readBytes]
  split
  · rfl
  split <;> rfl

theorem signal_original (token : Nat) (result : Status × State) :
    (signal token result).2.originalProtocol = result.2.originalProtocol := by
  rw [signal]
  split <;> rfl

theorem arrayStep_original (call : Call) :
    (arrayStep state call).2.originalProtocol = state.originalProtocol := by
  cases call with
  | setPosition position => rfl
  | getPosition position =>
    rw [arrayStep]
    split <;> rfl
  | read bufferSize buffer => exact readBytes_original ..
  | readEx token =>
    rw [arrayStep]
    split
    · rfl
    · rw [signal_original, readBytes_original]

def Unswappeds : List Call → State → Prop
  | [], _ => True
  | call :: rest, state => Unswapped state call ∧ Unswappeds rest (arrayStep state call).2

theorem run_eq {calls : List Call} (virtual : state.originalProtocol = 0)
    (unswapped : Unswappeds calls state) :
    run (step env) calls state = run arrayStep calls state := by
  induction calls generalizing state with
  | nil => rfl
  | cons call rest ih =>
    have later := ih ((arrayStep_original call).trans virtual) unswapped.2
    rw [run, run, step_eq virtual unswapped.1]
    simp only [later]

/-- A virtual file is an array of bytes with a cursor in the runs without such a `ReadEx`,
and a real file passes on exactly the straight operations. -/
theorem files_behave (env : Externals) (state : State) :
    (state.originalProtocol = 0 → ∀ calls, Unswappeds calls state →
      run (step env) calls state = run arrayStep calls state) ∧
    (Real state → ∀ operation,
      perform env operation state = passedOn env operation state ↔
        Straight state operation) :=
  ⟨fun virtual _ => run_eq virtual, perform_real⟩

/-- Other files that answer every call with success and change nothing. -/
def quiet : Externals where
  answer _ memory := (.success, memory, [])
  allocatePool _ _ := 0
  fileInfoGuid := []

/-- A file of 3 bytes with the token of a `ReadEx` of 2 bytes at 8, without an event. -/
def tokenFile (originalProtocol buffer : Nat) : State where
  this := 1
  originalProtocol := originalProtocol
  openCallback := 0
  fileName := []
  fileBuffer := [1, 2, 3]
  modificationTime := []
  filePosition := 0
  released := false
  memory := replicate 24 0 ++ encode 8 2 ++ encode 8 buffer ++ replicate 16 0
  signalled := []
  calls := []
  created := []

theorem files_behave_readEx :
    run (step quiet) [.setPosition 1, .read 24 40, .readEx 8, .setPosition 4, .readEx 8,
        .getPosition 48] (tokenFile 0 24) =
      run arrayStep [.setPosition 1, .read 24 40, .readEx 8, .setPosition 4, .readEx 8,
        .getPosition 48] (tokenFile 0 24) ∧ perform quiet (.read 24 40) (tokenFile 2 24) =
      passedOn quiet (.read 24 40) (tokenFile 2 24) := by
  refine ⟨(files_behave quiet (tokenFile 0 24)).1 rfl _ ?_,
    ((files_behave quiet (tokenFile 2 24)).2 ⟨by decide, by decide⟩ _).mpr ⟨by decide, by decide⟩⟩
  exact ⟨trivial, trivial, .inr (.inr (.inl (by decide))), trivial,
    .inr (.inr (.inr (by decide))), trivial, trivial⟩

theorem readEx_not_read :
    step quiet (tokenFile 0 40) (.readEx 8) ≠ arrayStep (tokenFile 0 40) (.readEx 8) ∧
    perform quiet .delete (tokenFile 2 40) ≠ passedOn quiet .delete (tokenFile 2 40) ∧
    perform quiet (.readEx 8) (tokenFile 2 40) ≠ passedOn quiet (.readEx 8) (tokenFile 2 40) := by
  decide

end ByteArray

end OpenCore.VirtualFile
