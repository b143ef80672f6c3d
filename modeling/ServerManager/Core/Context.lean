import ServerManager.Coroutine.Program
import ServerManager.Core.Types

/-!
# Handler Context

The state all handlers share, the requests they receive, the calls they make to
the machine server, and the points at which they can be suspended.

Everything a handler touches is keyed by the session id of its request: the
entry of `sessions` and the entry of `sessions_waiting_checkin`. Handlers of
different ids therefore never meet, and the context here is the part of
`handler_context` that belongs to one id. The entry of `sessions` carries a
generation number, so that a reference captured by a handler can be told from
an entry that was erased and made again under the same id.

The environment speaks through a few fields that the dispatch loop sets before
each resume: the `ok` flag of the event, the clock, and whether the calls that
can fail on their own (`Machine::NewStub`, spawning a process) succeed.

## Main definitions

* `MachineCall`, `MachineCall.Body`: Calls to the machine server.
* `Rpc`, `Response`, `Answer`: Requests and what is sent back.
* `CheckinContext`, `AlarmState`: A registered check-in wait and its alarm.
* `HandlerContext`: The shared state.
* `Op`: Where a handler can be suspended.
* `Exn`, `Halt`: The exception families, and the ends of the process.
* `Handler`: The coroutines of the manager.
-/

namespace ServerManager

open Coroutine

/-- `HTIFConfig` message. -/
structure HtifConfig where
  consoleGetchar : Bool
  yieldManual : Bool
  yieldAutomatic : Bool
  deriving DecidableEq, Inhabited

/-- `RollupConfig` message. -/
structure RollupConfig where
  rxBuffer : MemoryRangeConfig
  txBuffer : MemoryRangeConfig
  inputMetadata : MemoryRangeConfig
  voucherHashes : MemoryRangeConfig
  noticeHashes : MemoryRangeConfig
  deriving DecidableEq, Inhabited

/-- `MachineConfig` message. -/
structure MachineConfig where
  htif : HtifConfig
  rollup : Option RollupConfig
  deriving DecidableEq, Inhabited

/-- `RunResponse` message. -/
structure RunResponse where
  mcycle : UInt64
  tohost : UInt64
  iflagsH : Bool
  iflagsX : Bool
  iflagsY : Bool
  deriving DecidableEq, Inhabited

/-- `MerkleTreeProof` message. Hashes are byte strings of any length. -/
structure MerkleTreeProofMessage where
  targetAddress : UInt64
  log2TargetSize : UInt64
  targetHash : Bytes
  log2RootSize : UInt64
  rootHash : Bytes
  siblingHashes : List Bytes
  deriving DecidableEq, Inhabited

/-- Control and status registers the manager reads or writes. -/
inductive Csr
  | mcycle | htifFromhost
  deriving DecidableEq

/-- The calls made to the machine server. -/
inductive MachineCall
  | getVersion
  | machine (directory : String)
  | getInitialConfig
  | readCsr (csr : Csr)
  | writeCsr (csr : Csr) (value : UInt64)
  | run (limit : UInt64)
  | getRootHash
  | getProof (address log2Size : UInt64)
  | readMemory (address length : UInt64)
  | writeMemory (address : UInt64) (data : Bytes)
  | replaceMemoryRange (config : MemoryRangeConfig)
  | resetIflagsY
  | snapshot
  | rollback
  | store (directory : String)
  | shutdown

/-- The contents of the response message of each call. -/
def MachineCall.Body : MachineCall → Type
  | .getVersion => Nat × Nat
  | .getInitialConfig => MachineConfig
  | .readCsr _ => UInt64
  | .run _ => RunResponse
  | .getRootHash => Bytes
  | .getProof _ _ => MerkleTreeProofMessage
  | .readMemory _ _ => Bytes
  | _ => Unit

instance (c : MachineCall) : Inhabited c.Body := by
  cases c <;> unfold MachineCall.Body <;> exact ⟨default⟩

/-- The status of a finished call with its response message. -/
structure CallReply (c : MachineCall) where
  status : Status
  body : c.Body
  deriving Inhabited

/-- `InputMetadata` message. -/
structure InputMetadata where
  msgSender : Option Bytes
  blockNumber : UInt64
  timestamp : UInt64
  epochIndex : UInt64
  inputIndex : UInt64
  deriving DecidableEq

/-- `AdvanceStateRequest` message. -/
structure AdvanceStateRequest where
  activeEpochIndex : UInt64
  currentInputIndex : UInt64
  inputMetadata : Option InputMetadata
  inputPayload : Bytes
  deriving DecidableEq

/-- `FinishEpochRequest` message. -/
structure FinishEpochRequest where
  activeEpochIndex : UInt64
  processedInputCountWithinEpoch : UInt64
  storageDirectory : String
  deriving DecidableEq

/-- `StartSessionRequest` message. -/
structure StartSessionRequest where
  machineDirectory : String
  activeEpochIndex : UInt64
  processedInputCount : UInt64
  serverDeadline : Option DeadlineConfigType
  serverCycles : Option CyclesConfigType
  deriving DecidableEq

/-- What a coroutine was created for. A request other than `checkIn` carries
    the id of the session it is about; the deadline coroutine is created by the
    manager itself, for an alarm. -/
inductive Rpc
  | startSession (request : StartSessionRequest)
  | advanceState (request : AdvanceStateRequest)
  | inspectState (queryPayload : Bytes)
  | finishEpoch (request : FinishEpochRequest)
  | deleteEpoch (epochIndex : UInt64)
  | endSession
  | getSessionStatus
  | getEpochStatus (epochIndex : UInt64)
  | checkIn (address : String)
  | checkinDeadline (alarm : Nat)
  deriving DecidableEq

/-- `OutputEnum`. -/
inductive OutputEnum
  | voucher | notice
  deriving DecidableEq

/-- `OutputValidityProof` message. -/
structure OutputValidityProof where
  inputIndexWithinEpoch : UInt64
  outputIndexWithinInput : UInt64
  outputHashesRootHash : HashType
  vouchersEpochRootHash : HashType
  noticesEpochRootHash : HashType
  machineStateHash : HashType
  outputHashInOutputHashesSiblings : List HashType
  outputHashesInEpochSiblings : List HashType

/-- `Proof` message. -/
structure ProofMessage where
  inputIndex : UInt64
  outputIndex : UInt64
  outputEnum : OutputEnum
  validity : OutputValidityProof
  context : Bytes

/-- `FinishEpochResponse` message. -/
structure FinishEpochResponse where
  machineHash : HashType
  vouchersEpochRootHash : HashType
  noticesEpochRootHash : HashType
  proofs : List ProofMessage

/-- The part of `ProcessedInput` that depends on the completion status. -/
inductive ProcessedMessage
  | none
  | acceptedData (vouchers : List (EvmAddressType × Bytes)) (notices : List Bytes)
  | exceptionData (data : Bytes)

/-- `ProcessedInput` message. -/
structure ProcessedInputMessage where
  inputIndex : UInt64
  reports : List ReportType
  status : CompletionStatus
  processed : ProcessedMessage

/-- The response messages of the manager. -/
inductive Response
  | void
  | startSession (config : MachineConfig)
  | finishEpoch (response : FinishEpochResponse)
  | sessionStatus (sessionId : String) (activeEpochIndex : UInt64) (epochIndex : List UInt64)
      (taintStatus : Option Status)
  | epochStatus (sessionId : String) (epochIndex : UInt64) (state : EpochState)
      (processedInputs : List ProcessedInputMessage) (pendingInputCount : Nat)
      (taintStatus : Option Status)
  | inspectState (sessionId : String) (activeEpochIndex processedInputCount : UInt64)
      (reports : List ReportType) (status : CompletionStatus) (exceptionData : Option Bytes)

/-- What a response writer is asked to send. -/
inductive Answer
  | finish (response : Response)
  | finishWithError (status : Status)

/-- `checkin_context`. The alarm is named by its position in `alarms`. -/
structure CheckinContext where
  coroutine : HandlerId
  alarm : Nat
  status : Option Bool
  deriving DecidableEq

/-- A check-in alarm: set and running, fired with its event in the queue,
    cancelled before it fired with the event of that in the queue, or with its
    event taken out of the queue. -/
inductive AlarmState
  | running | fired | cancelled | delivered
  deriving DecidableEq

/-- The part of `handler_context` that belongs to one session id. -/
structure HandlerContext where
  id : String
  remoteCartesiMachinePath : String
  managerAddress : String
  serverAddress : String
  /-- The entry of `sessions`, with its generation. -/
  session : Option (Nat × SessionType)
  /-- The generation the next entry gets. -/
  generation : Nat
  /-- The entry of `sessions_waiting_checkin`. -/
  waitingCheckin : Option CheckinContext
  /-- Every check-in alarm set so far. -/
  alarms : List AlarmState
  /-- Coroutines put in the completion queue by `enqueue_completion_queue`. -/
  completionQueue : List (Option HandlerId)
  /-- What the writers were asked to send, in order. -/
  sent : List (Rpc × Answer)
  /-- Generations whose server process group was terminated. -/
  terminated : List Nat
  /-- The flag the completion queue returned with the last event. -/
  ok : Bool
  /-- The clock, in milliseconds. -/
  now : Int
  /-- `Machine::NewStub` does not return null. -/
  newStub : Bool
  /-- The error with which spawning a process fails, if it does. -/
  spawnError : Option String

/-- Where a handler can be suspended: in a call to the machine server, waiting
    for the acknowledgement of what it sent, waiting for a check-in, parked
    between two inputs until a query is done, parked in a catch clause until a
    query is done, parked until the inputs let a query in, or in the middle of
    a direct resume of another coroutine. -/
inductive Op
  | call (c : MachineCall)
  | finish (response : Response)
  | finishWithError (status : Status)
  | checkin
  | handOff
  | afterTaint
  | awaitInputs
  | resume (h : HandlerId)

/-- What a suspended handler finds when it is resumed. -/
def Op.Reply : Op → Type
  | .call c => CallReply c
  | _ => Unit

instance (op : Op) : Inhabited op.Reply := by
  cases op <;> unfold Op.Reply <;> exact ⟨default⟩

/-- The three exception families the handlers tell apart. A taint carries the
    reference to the session it is about. -/
inductive Exn
  | finishErrorYieldNone (status : Status)
  | taintSession (ref : Nat) (status : Status)
  | stdException (what : String)

/-- `what()` of an exception as `catch (std::exception &)` sees it: the two
    families of the manager do not override it. -/
def Exn.what : Exn → String
  | .finishErrorYieldNone _ => "std::exception"
  | .taintSession _ _ => "std::exception"
  | .stdException what => what

/-- The ends of the process: the calls of `exit(1)`, and undefined behaviour. The
    use of an erased session is kept apart from that of an erased epoch or query. -/
inductive Halt
  | alreadyWaitingCheckin
  | checkinContextErased
  | checkinStatusNotSet
  | deadlineNotRegistered
  | deadlineNotFound
  | sessionErased
  | useAfterFree
  | nullStub
  | nullCoroutine
  | danglingCoroutine
  | staleCompletion
  | uncaughtException
  deriving DecidableEq

/-- Calls and answers are completed by events of the completion queue. -/
def Op.completes : Op → Bool
  | .call _ => true
  | .finish _ => true
  | .finishWithError _ => true
  | _ => false

/-- A direct resume names the coroutine it resumes. -/
def Op.target : Op → Option HandlerId
  | .resume h => some h
  | _ => none

/-- The signature of the manager's coroutines. -/
abbrev handlerSignature : Signature where
  State := HandlerContext
  Op := Op
  Reply := Op.Reply
  Exn := Exn
  Halt := Halt
  blank _ := default
  completes := Op.completes
  target := Op.target
  escaped _ := .uncaughtException
  dangling := .danglingCoroutine

/-- A coroutine of the manager. -/
abbrev Handler := Prog handlerSignature

/-! ### Sessions and epochs by reference -/

/-- Read the session a handler captured a reference to. -/
def getSession (ref : Nat) : Handler SessionType :=
  .get fun hctx => match hctx.session with
    | some (generation, session) =>
      if generation = ref then .pure session else .halt .sessionErased
    | none => .halt .sessionErased

/-- Write through a captured reference. -/
def modifySession (ref : Nat) (f : SessionType → SessionType) : Handler Unit :=
  .get fun hctx => match hctx.session with
    | some (generation, session) =>
      if generation = ref then .set { hctx with session := some (generation, f session) } (.pure ())
      else .halt .sessionErased
    | none => .halt .sessionErased

/-- Read an epoch through a captured reference. -/
def getEpoch (ref : Nat) (index : UInt64) : Handler EpochType := do
  let session ← getSession ref
  match session.epochs.lookup index with
  | some e => return e
  | none => .halt .useAfterFree

/-- Write an epoch through a captured reference. -/
def modifyEpoch (ref : Nat) (index : UInt64) (f : EpochType → EpochType) : Handler Unit := do
  let e ← getEpoch ref index
  modifySession ref fun session => { session with epochs := session.epochs.insert index (f e) }

/-- `epochs[index]`, which makes a default entry when there is none. -/
def epochsAt [Keccak] (ref : Nat) (index : UInt64) : Handler EpochType := do
  let session ← getSession ref
  match session.epochs.lookup index with
  | some e => return e
  | none =>
    modifySession ref fun session =>
      { session with epochs := session.epochs.insert index EpochType.new }
    return EpochType.new

/-! ### Exceptions, answers and calls -/

def throwFinishError {α : Type} (code : StatusCode) (message : String) : Handler α :=
  .throw (.finishErrorYieldNone ⟨code, message⟩)

def throwTaint {α : Type} (ref : Nat) (code : StatusCode) (message : String) : Handler α :=
  .throw (.taintSession ref ⟨code, message⟩)

/-- The value of a computation that can throw a standard exception. -/
def ofExcept {α : Type} : Except String α → Handler α
  | .ok a => .pure a
  | .error what => .throw (.stdException what)

/-- `CHECK_STATUS_OR_FAIL` and `CHECK_STATUS_OR_TAINT` build the same status. -/
def contactError (status : Status) (deadline : String) : Status :=
  if status.code = .deadlineExceeded then
    ⟨status.code, "error contacting remote machine server: " ++ deadline ++ " deadline exceeded"⟩
  else
    ⟨status.code, "error contacting remote machine server: " ++ status.message⟩

/-- `CHECK_STATUS_OR_FAIL`. -/
def checkStatusOrFail (status : Status) (deadline : String) : Handler Unit :=
  if status.isOk then .pure ()
  else .throw (.finishErrorYieldNone (contactError status deadline))

/-- `CHECK_STATUS_OR_TAINT`. -/
def checkStatusOrTaint (ref : Nat) (status : Status) (deadline : String) : Handler Unit :=
  if status.isOk then .pure ()
  else .throw (.taintSession ref (contactError status deadline))

/-- Start a call through the session's stub and wait for its response. -/
def call (ref : Nat) (c : MachineCall) : Handler (CallReply c) := do
  let session ← getSession ref
  if session.serverStub then .yield (.call c) .pure else .halt .nullStub

/-- `writer.Finish(response, OK, self)` and the wait for its acknowledgement. -/
def finish (rpc : Rpc) (response : Response) : Handler Unit := do
  Prog.modify (S := handlerSignature) fun hctx =>
    { hctx with sent := hctx.sent ++ [(rpc, .finish response)] }
  .yield (.finish response) .pure

/-- `writer.FinishWithError(status, self)` and the wait. -/
def finishWithError (rpc : Rpc) (status : Status) : Handler Unit := do
  Prog.modify (S := handlerSignature) fun hctx =>
    { hctx with sent := hctx.sent ++ [(rpc, .finishWithError status)] }
  .yield (.finishWithError status) .pure

/-- `enqueue_completion_queue`: the tag comes back from the queue at some
    later time, whatever it points to. -/
def enqueueCompletionQueue (coroutine : Option HandlerId) : Handler Unit :=
  Prog.modify (S := handlerSignature) fun hctx =>
    { hctx with completionQueue := hctx.completionQueue ++ [coroutine] }

end ServerManager
