import Mathlib
import ServerManager.Core.Epoch

/-!
# Handlers

The handler of each RPC, from the moment its request comes out of the
completion queue. What precedes that moment, registering for a request and
waiting for it, is the same for all of them and belongs to the dispatch loop.

A `try` block is `Prog.tryCatch`, and an object with a destructor is a scope
that ends with `Prog.andFinally`; the destructors of a block therefore run
before the catch clause does, in the reverse order of construction, as they do
in the source.

## Main definitions

* `withSessionLock`: The prologue that refuses a locked session and locks it.
* `newAdvanceStateHandler`, `newInspectStateHandler`: Inputs and queries.
* `newFinishEpochHandler`, `newDeleteEpochHandler`: Epochs.
* `newGetSessionStatusHandler`, `newGetEpochStatusHandler`: Reports.
* `newStartSessionHandler`, `newEndSessionHandler`: Sessions.
* `newCheckinHandler`, `checkinDeadlineResumed`: The two ends of a check-in.
-/

namespace ServerManager

open Coroutine

variable [Keccak]

/-! ### Common parts -/

/-- `sessions.find(id)`, with the error for a session that is not there. -/
def findSession (notFound : String) : Handler Nat := do
  let hctx ← getContext
  match hctx.session with
  | some (generation, _) => return generation
  | none => throwFinishError .invalidArgument notFound

/-- `get_session_lock_reason`. -/
def getSessionLockReason (rpc peer : String) : String := "RPC " ++ rpc ++ " from " ++ peer

/-- Refuse a session that is already locked, else lock it for the scope of
    `body`. -/
def withSessionLock (ref : Nat) (rpc peer : String) (body : Handler Unit) : Handler Unit := do
  let session ← getSession ref
  let newLockReason := getSessionLockReason rpc peer
  if session.sessionLock then
    throwFinishError .aborted ("concurrent call in session (already locked by " ++
      session.sessionLockReason ++ " when attempted lock by " ++ newLockReason ++ ")")
  autoLock sessionLockField ref (rpc ++ " session lock") do
    modifySession ref fun session => { session with sessionLockReason := newLockReason }
    body

/-- Refuse a tainted session. -/
def checkTainted (ref : Nat) (what : String) : Handler Unit := do
  let session ← getSession ref
  if session.tainted then
    throwFinishError .dataLoss (what ++ " (" ++ session.taintStatus.message ++ ")")

/-- Refuse a session whose epoch counter is at its end. -/
def checkEpochOverflow (ref : Nat) : Handler Unit := do
  let session ← getSession ref
  if session.activeEpochIndex = 0xFFFFFFFFFFFFFFFF then
    throwFinishError .outOfRange "active epoch index will overflow"

/-- The status reported for an exception that no clause expects. -/
def unexpectedException (what : String) : Status := ⟨.internal, "unexpected exception " ++ what⟩

/-- The catch clauses of the handlers that answer every error. -/
def answerErrors (rpc : Rpc) (body : Handler Unit) : Handler Unit :=
  body.tryCatch fun
    | .finishErrorYieldNone status => finishWithError rpc status
    | x => finishWithError rpc (unexpectedException x.what)

/-- Handlers ignore a request that arrives with the `ok` flag cleared. -/
def onArrival (body : Handler Unit) : Handler Unit := do
  let hctx ← getContext
  if hctx.ok then body else return

/-! ### AdvanceState -/

/-- The checks of AdvanceState on the input metadata, and the conversion. -/
def checkInputMetadata (proto : Option InputMetadata) (currentInputIndex : UInt64) :
    Handler InputMetadataType :=
  match proto with
  | none => throwFinishError .invalidArgument "missing input metadata"
  | some m =>
    match m.msgSender with
    | none => throwFinishError .invalidArgument "missing input metadata msg_sender"
    | some sender =>
      if h : sender.length = 20 then
        if m.epochIndex ≠ 0 then
          throwFinishError .invalidArgument
            ("input metadata epoch index is deprecated. Should always be 0 received (" ++
              toString m.epochIndex ++ ")")
        else if m.inputIndex ≠ currentInputIndex then
          throwFinishError .invalidArgument ("input metadata input index (" ++
            toString m.inputIndex ++ ") is inconsistent with current input index (" ++
            toString currentInputIndex ++ ")")
        else
          .pure
            { msgSender := ⟨sender, h⟩
              blockNumber := m.blockNumber
              timestamp := m.timestamp
              epochIndex := m.epochIndex
              inputIndex := m.inputIndex }
      else
        throwFinishError .invalidArgument ("invalid input metadata msg_sender length (expected " ++
          toString evmAddressLength ++ " bytes, got " ++ toString sender.length ++ " bytes)")

/-- The checks of AdvanceState in the locked session, up to the conversion of
    the metadata. Returns the index of the epoch and the input. -/
def checkAdvanceState (ref : Nat) (request : AdvanceStateRequest) : Handler InputType := do
  checkTainted ref "session was previously tainted"
  let session ← getSession ref
  if session.activeEpochIndex ≠ request.activeEpochIndex then
    throwFinishError .invalidArgument ("incorrect active epoch index (expected " ++
      toString session.activeEpochIndex ++ ", got " ++ toString request.activeEpochIndex ++ ")")
  match session.epochs.lookup session.activeEpochIndex with
  | none => throwFinishError .internal "active epoch not found"
  | some e =>
    if e.state ≠ .active then
      throwFinishError .invalidArgument "epoch is finished"
    let currentInputIndex := UInt64.ofNat e.pendingInputs.length + session.processedInputCount
    if currentInputIndex ≠ request.currentInputIndex then
      throwFinishError .invalidArgument ("incorrect current input index (expected " ++
        toString session.processedInputCount ++ ", got " ++
        toString request.currentInputIndex ++ ")")
    let metadata ← checkInputMetadata request.inputMetadata currentInputIndex
    return { metadata := metadata, payload := request.inputPayload }

/-- Taint a session in a catch clause of AdvanceState, and let a query that is
    parked go on. -/
def taintAndHandOver (self : HandlerId) (ref : Nat) (status : Status) : Handler Unit := do
  modifySession ref fun session => { session with tainted := true, taintStatus := status }
  let session ← getSession ref
  let e ← epochsAt ref session.activeEpochIndex
  match e.pendingQuery with
  | some q =>
    handOver self ref session.activeEpochIndex q
    .yield .afterTaint .pure
  | none => return

/-- The body of AdvanceState in the locked session. -/
def advanceStateBody (fuel : Nat) (self : HandlerId) (ref : Nat) (request : AdvanceStateRequest) :
    Handler Unit := do
  let input ← checkAdvanceState ref request
  let index := request.activeEpochIndex
  modifyEpoch ref index fun e => { e with pendingInputs := e.pendingInputs ++ [input] }
  finish (.advanceState request) .void
  sessionLockField.release ref "AdvanceState session lock"
  let e ← getEpoch ref index
  if e.pendingInputs.length = 1 then
    processPendingInputs fuel self ref index

/-- `new_AdvanceState_handler`. -/
def newAdvanceStateHandler (fuel : Nat) (self : HandlerId) (peer : String)
    (request : AdvanceStateRequest) : Handler Unit :=
  onArrival <| Prog.tryCatch
    (do
      let ref ← findSession "session id not found!"
      checkEpochOverflow ref
      withSessionLock ref "AdvanceState" peer (advanceStateBody fuel self ref request))
    fun
      | .finishErrorYieldNone status => finishWithError (.advanceState request) status
      | .taintSession ref status => taintAndHandOver self ref status
      | .stdException what => do
        let hctx ← getContext
        match hctx.session with
        | some (ref, _) => taintAndHandOver self ref (unexpectedException what)
        | none => return

/-! ### InspectState -/

/-- The part of InspectState after the machine is its own. -/
def inspectStateBody (fuel : Nat) (self : HandlerId) (ref : Nat) (index : UInt64)
    (payload : Bytes) : Handler Unit := do
  checkTainted ref "session is tainted"
  processPendingQuery fuel self ref index
  let session ← getSession ref
  let q ← getQuery ref index
  modifyEpoch ref index fun e => { e with pendingQuery := none }
  finish (.inspectState payload) (.inspectState session.id session.activeEpochIndex
    q.processedInputCount q.reports q.status
    (if q.status = .exception then q.exceptionData else none))

/-- `~auto_resume`. -/
def autoResume (coroutine : Option HandlerId) : Handler Unit :=
  match coroutine with
  | some h => enqueueCompletionQueue (some h)
  | none => .pure ()

/-- InspectState in the locked session. -/
def inspectStateLocked (fuel : Nat) (self : HandlerId) (ref : Nat) (payload : Bytes) :
    Handler Unit := do
  checkTainted ref "session was previously tainted"
  let session ← getSession ref
  let index := session.activeEpochIndex
  match session.epochs.lookup index with
  | none => throwFinishError .internal "active epoch not found"
  | some e =>
    if e.pendingQuery.isSome then
      throwFinishError .internal "another query is already pending"
    modifyEpoch ref index fun e => { e with pendingQuery := some (QueryType.new payload) }
    if e.pendingInputs.isEmpty then
      -- the pointer of `resume_on_exit` stays null
      (inspectStateBody fuel self ref index payload).andFinally (autoResume none)
    else
      modifyQuery ref index fun q => { q with coroutine := some self }
      .yield .awaitInputs fun _ => do
        let q ← getQuery ref index
        (inspectStateBody fuel self ref index payload).andFinally (autoResume q.coroutine)

/-- `new_InspectState_handler`. -/
def newInspectStateHandler (fuel : Nat) (self : HandlerId) (peer : String) (payload : Bytes) :
    Handler Unit :=
  onArrival <| Prog.tryCatch
    (do
      let ref ← findSession "session id not found!"
      withSessionLock ref "InspectState" peer (inspectStateLocked fuel self ref payload))
    fun
      | .finishErrorYieldNone status => finishWithError (.inspectState payload) status
      | .taintSession ref status => do
        modifySession ref fun session => { session with tainted := true, taintStatus := status }
        finishWithError (.inspectState payload) status
      | .stdException what => do
        let hctx ← getContext
        match hctx.session with
        | some (ref, _) =>
          modifySession ref fun session =>
            { session with tainted := true, taintStatus := unexpectedException what }
        | none => pure ()
        finishWithError (.inspectState payload) (unexpectedException what)

/-! ### FinishEpoch and DeleteEpoch -/

/-- FinishEpoch in the locked session. -/
def finishEpochLocked (ref : Nat) (request : FinishEpochRequest) : Handler Unit := do
  checkTainted ref "session was previously tainted"
  let session ← getSession ref
  let index := request.activeEpochIndex
  match session.epochs.lookup index with
  | none => throwFinishError .invalidArgument "unknown epoch index"
  | some e =>
    if e.state ≠ .active then
      throwFinishError .invalidArgument "epoch already finished"
    if !e.pendingInputs.isEmpty then
      throwFinishError .invalidArgument "epoch still has pending inputs"
    if e.processedInputs.length ≠ request.processedInputCountWithinEpoch.toNat then
      throwFinishError .invalidArgument ("incorrect processed input count (expected " ++
        toString e.processedInputs.length ++ ", got " ++
        toString request.processedInputCountWithinEpoch ++ ")")
    if request.storageDirectory ≠ "" then
      store ref request.storageDirectory
    finishEpoch ref index
    startNewEpoch ref index
    let e ← getEpoch ref index
    let response ← ofExcept (setProtoFinishEpochResponse e)
    finish (.finishEpoch request) (.finishEpoch response)

/-- `new_FinishEpoch_handler`. -/
def newFinishEpochHandler (peer : String) (request : FinishEpochRequest) : Handler Unit :=
  onArrival <| answerErrors (.finishEpoch request) do
    let ref ← findSession "session id not found"
    checkEpochOverflow ref
    withSessionLock ref "FinishEpoch" peer (finishEpochLocked ref request)

/-- DeleteEpoch in the locked session. -/
def deleteEpochLocked (ref : Nat) (epochIndex : UInt64) : Handler Unit := do
  let session ← getSession ref
  match session.epochs.lookup epochIndex with
  | none => throwFinishError .invalidArgument "unknown epoch index"
  | some e =>
    if e.state = .active ∨ session.activeEpochIndex = epochIndex then
      throwFinishError .invalidArgument "epoch is active"
    modifySession ref fun session => { session with epochs := session.epochs.erase epochIndex }
    finish (.deleteEpoch epochIndex) .void

/-- `new_DeleteEpoch_handler`. -/
def newDeleteEpochHandler (peer : String) (epochIndex : UInt64) : Handler Unit :=
  onArrival <| answerErrors (.deleteEpoch epochIndex) do
    let ref ← findSession "session id not found"
    withSessionLock ref "DeleteEpoch" peer (deleteEpochLocked ref epochIndex)

/-! ### Status -/

/-- The taint status in a status response. -/
def taintStatusMessage (session : SessionType) : Option Status :=
  if session.tainted then some session.taintStatus else none

/-- `new_GetSessionStatus_handler`. A map lists its keys in order. -/
def newGetSessionStatusHandler (peer : String) : Handler Unit :=
  onArrival <| answerErrors .getSessionStatus do
    let ref ← findSession "session id not found!"
    withSessionLock ref "GetSessionStatus" peer do
      let session ← getSession ref
      finish .getSessionStatus (.sessionStatus session.id session.activeEpochIndex
        (session.epochs.keys.mergeSort fun a b => decide (a ≤ b)) (taintStatusMessage session))

/-- `set_proto_accepted_data` and `set_proto_exception_data`, each for the
    status under which it is called. -/
def setProtoProcessed (i : ProcessedInputType) : ProcessedMessage :=
  match i.status, i.processed with
  | .accepted, .accepted data =>
    .acceptedData (data.vouchers.map fun v => (v.destination, v.payload))
      (data.notices.map fun n => n.payload)
  | .exception, .exception data => .exceptionData data
  | _, _ => .none

/-- `set_proto_processed_input`. -/
def setProtoProcessedInput (i : ProcessedInputType) : ProcessedInputMessage :=
  { inputIndex := i.inputIndex
    reports := i.reports
    status := i.status
    processed := setProtoProcessed i }

/-- `new_GetEpochStatus_handler`. -/
def newGetEpochStatusHandler (peer : String) (epochIndex : UInt64) : Handler Unit :=
  onArrival <| answerErrors (.getEpochStatus epochIndex) do
    let ref ← findSession "session id not found"
    withSessionLock ref "GetEpochStatus" peer do
      let session ← getSession ref
      match session.epochs.lookup epochIndex with
      | none => throwFinishError .invalidArgument "unknown epoch index"
      | some e =>
        finish (.getEpochStatus epochIndex) (.epochStatus session.id epochIndex e.state
          (e.processedInputs.map setProtoProcessedInput) e.pendingInputs.length
          (taintStatusMessage session))

/-! ### EndSession -/

/-- EndSession in the locked session. -/
def endSessionLocked (ref : Nat) : Handler Unit := do
  let session ← getSession ref
  if !session.tainted then
    let e ← epochsAt ref session.activeEpochIndex
    if !e.pendingInputs.isEmpty then
      throwFinishError .invalidArgument "active epoch has pending inputs"
    if !e.processedInputs.isEmpty then
      throwFinishError .invalidArgument "active epoch has processed inputs"
  let session ← getSession ref
  if session.processingLock then
    throwFinishError .internal "session is processing inputs!"
  shutdownServer ref
  let session ← getSession ref
  if session.tainted then
    Prog.modify (S := handlerSignature) fun hctx =>
      { hctx with terminated := hctx.terminated ++ [ref] }
  Prog.modify (S := handlerSignature) fun hctx => { hctx with session := none }
  finish .endSession .void

/-- `new_EndSession_handler`. The destructor of the lock runs after the session
    has been erased. -/
def newEndSessionHandler (peer : String) : Handler Unit :=
  onArrival <| answerErrors .endSession do
    let ref ← findSession "session id not found"
    withSessionLock ref "EndSession" peer (endSessionLocked ref)

/-! ### Check-in -/

/-- Register the address of a checked-in server, mark the wait successful and
    cancel its alarm. -/
def acceptCheckin (address : String) (cctx : CheckinContext) : Handler Unit :=
  Prog.modify (S := handlerSignature) fun hctx =>
    { hctx with
      session := hctx.session.map fun s => (s.1, { s.2 with serverAddress := address })
      waitingCheckin := some { cctx with status := some true }
      alarms := cancelAlarm hctx.alarms cctx.alarm }

/-- `new_Checkin_handler`. -/
def newCheckinHandler (address : String) : Handler Unit :=
  onArrival <| answerErrors (.checkIn address) do
    let hctx ← getContext
    match hctx.waitingCheckin with
    | none => throwFinishError .invalidArgument ("check-in with wrong session id " ++ hctx.id)
    | some cctx =>
      if hctx.session.isNone then
        throwFinishError .invalidArgument ("could not find an actual session with id " ++ hctx.id)
      acceptCheckin address cctx
      finish (.checkIn address) .void
      .yield (.resume cctx.coroutine) .pure

/-- `new_CheckinDeadline_handler` once its alarm came out of the queue. -/
def checkinDeadlineResumed : Handler Unit := do
  let hctx ← getContext
  if hctx.ok then
    match hctx.waitingCheckin with
    | none => .halt .deadlineNotFound
    | some cctx =>
      Prog.modify (S := handlerSignature) fun hctx =>
        { hctx with waitingCheckin := some { cctx with status := some false } }
      .yield (.resume cctx.coroutine) .pure

end ServerManager
