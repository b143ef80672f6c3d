import ServerManager.Core.Handlers

/-!
# Starting Sessions

StartSession installs the session before it has checked anything, locks it,
checks the request, spawns a machine server, waits for it to check in, checks
its configuration and starts the first epoch. Whatever goes wrong on the way
ends in a catch clause that erases the session again.

## Main definitions

* `getProtoSession`: The session a request describes.
* `checkRequest`: The checks on deadlines and cycles.
* `checkMemoryRangeConfig`, `checkRollupConfig`, `checkHtifConfig`: The checks
  on the configuration of the machine.
* `newStartSessionHandler`: The handler.
-/

namespace ServerManager

open Coroutine

variable [Keccak]

def machineVersionMajor : Nat := 0
def machineVersionMinor : Nat := 7

/-- `get_proto_session`. Missing configurations read as zeros. -/
def getProtoSession (id : String) (request : StartSessionRequest) : SessionType :=
  { id := id
    sessionLock := false
    sessionLockReason := ""
    processingLock := false
    tainted := false
    taintStatus := default
    serverStub := false
    currentMcycle := 0
    activeEpochIndex := request.activeEpochIndex
    processedInputCount := request.processedInputCount
    memoryRange := default
    epochs := ∅
    serverDeadline := request.serverDeadline.getD default
    serverCycles := request.serverCycles.getD default
    serverAddress := "" }

/-- The checks of StartSession on the request, in order. -/
def checkRequest (session : SessionType) (request : StartSessionRequest) : Handler Unit :=
  if request.machineDirectory = "" then
    throwFinishError .invalidArgument "missing machine directory in config"
  else if session.activeEpochIndex = 0xFFFFFFFFFFFFFFFF then
    throwFinishError .outOfRange "active epoch index will overflow"
  else if request.serverDeadline.isNone then
    throwFinishError .invalidArgument "missing server deadline config"
  else if session.serverDeadline.advanceState < session.serverDeadline.advanceStateIncrement then
    throwFinishError .invalidArgument
      "advance state deadline is less than advance state increment deadline"
  else if session.serverDeadline.inspectState < session.serverDeadline.inspectStateIncrement then
    throwFinishError .invalidArgument
      "inspect state deadline is less than inspect state increment deadline"
  else if request.serverCycles.isNone then
    throwFinishError .invalidArgument "missing server cycles config"
  else if session.serverCycles.maxAdvanceState = 0 ∨
      session.serverCycles.advanceStateIncrement = 0 then
    throwFinishError .invalidArgument
      "max cycles per advance state or cycles per advance state increment is zero"
  else if session.serverCycles.maxAdvanceState < session.serverCycles.advanceStateIncrement then
    throwFinishError .invalidArgument
      "max cycles per advance state is less than cycles per advance state increment"
  else if session.serverCycles.maxInspectState = 0 ∨
      session.serverCycles.inspectStateIncrement = 0 then
    throwFinishError .invalidArgument
      "max cycles per inspect state or cycles per inspect state increment is zero"
  else if session.serverCycles.maxInspectState < session.serverCycles.inspectStateIncrement then
    throwFinishError .invalidArgument
      "max cycles per inspect state is less than cycles per inspect state increment"
  else
    .pure ()

/-- The trigger of the first check-in: spawn a server process. -/
def spawnServer : Handler Unit := do
  let hctx ← getContext
  let cmdline := hctx.remoteCartesiMachinePath ++ " --session-id=" ++ hctx.id ++
    " --checkin-address=" ++ hctx.managerAddress ++ " --server-address=" ++ hctx.serverAddress
  match hctx.spawnError with
  | some what =>
    throwFinishError .internal ("failed spawning remote machine server with command-line '" ++
      cmdline ++ "' (" ++ what ++ ")")
  | none => return

/-- `check_server_version`. -/
def checkServerVersion (ref : Nat) : Handler Unit := do
  let version ← callOrFail ref .getVersion "fast"
  if version.1 ≠ machineVersionMajor ∨ version.2 ≠ machineVersionMinor then
    throwFinishError .failedPrecondition
      "server manager is incompatible with remote machine server"

/-- `check_server_machine`. -/
def checkServerMachine (ref : Nat) (directory : String) : Handler Unit :=
  callOrFail ref (.machine directory) "machine (instantiation)"

/-- `get_initial_config`. -/
def getInitialConfig (ref : Nat) : Handler MachineConfig := callOrFail ref .getInitialConfig "fast"

/-- `is_power_of_two`. -/
def isPowerOfTwo (value : UInt64) : Bool := value > 0 && (value &&& (value - 1)) == 0

/-- `ilog2`. -/
def ilog2 (v : UInt64) : UInt64 := UInt64.ofNat v.toNat.log2

/-- `check_memory_range_config`. -/
def checkMemoryRangeConfig (name : String) (config : MemoryRangeConfig) :
    Handler MemoryRangeDescriptionType :=
  let log2Size := ilog2 config.length
  if config.shared then
    throwFinishError .invalidArgument (name ++ " buffer cannot be shared")
  else if !isPowerOfTwo config.length then
    throwFinishError .outOfRange (name ++ " memory range length not a power of two (" ++
      toString config.length ++ ")")
  else if config.start ≠ (config.start >>> log2Size) <<< log2Size then
    throwFinishError .outOfRange (name ++ " memory range start not aligned to its power of two size")
  else
    .pure
      { start := config.start
        length := config.length
        log2Size := log2Size
        config := { config with imageFilename := "" } }

/-- `check_htif_config`. -/
def checkHtifConfig (htif : HtifConfig) : Handler Unit :=
  if !htif.yieldManual then
    throwFinishError .invalidArgument "yield manual must be enabled"
  else if !htif.yieldAutomatic then
    throwFinishError .invalidArgument "yield automatic must be enabled"
  else if htif.consoleGetchar then
    throwFinishError .invalidArgument "console getchar must be disabled"
  else
    .pure ()

/-- `check_rollup_config`. -/
def checkRollupConfig (ref : Nat) (config : MachineConfig) : Handler Unit := do
  match config.rollup with
  | none => throwFinishError .invalidArgument "missing remote machine rollup config"
  | some rollup =>
    if rollup.rxBuffer.length = 0 ∧ rollup.txBuffer.length = 0 ∧
        rollup.inputMetadata.length = 0 ∧ rollup.voucherHashes.length = 0 ∧
        rollup.noticeHashes.length = 0 then
      throwFinishError .invalidArgument "invalid remote machine rollup config"
    let txBuffer ← checkMemoryRangeConfig "tx buffer" rollup.txBuffer
    let rxBuffer ← checkMemoryRangeConfig "rx buffer" rollup.rxBuffer
    let inputMetadata ← checkMemoryRangeConfig "input metadata" rollup.inputMetadata
    let voucherHashes ← checkMemoryRangeConfig "voucher hashes" rollup.voucherHashes
    let noticeHashes ← checkMemoryRangeConfig "notice hashes" rollup.noticeHashes
    modifySession ref fun session => { session with memoryRange :=
      { rxBuffer := rxBuffer
        txBuffer := txBuffer
        inputMetadata := inputMetadata
        voucherHashes := voucherHashes
        noticeHashes := noticeHashes } }

/-- `get_current_mcycle`. -/
def getCurrentMcycle (ref : Nat) : Handler UInt64 := callOrFail ref (.readCsr .mcycle) "fast"

/-- `check_is_yielded`. -/
def checkIsYielded (ref : Nat) : Handler UInt64 := do
  let currentMcycle ← getCurrentMcycle ref
  let runResponse ← callOrFail ref (.run currentMcycle) "fast"
  if !runResponse.iflagsY then
    throwFinishError .invalidArgument "expected manual yield"
  if currentMcycle ≠ runResponse.mcycle then
    throwFinishError .internal "mcycle shouldn't have changed"
  checkHtifYieldManual ref "htif.tohost" runResponse.tohost
  checkYieldReasonAccepted runResponse.tohost
  return runResponse.mcycle

/-- `start_first_epoch`. -/
def startFirstEpoch (ref : Nat) : Handler Unit := do
  let session ← getSession ref
  let hash ← getRootHash ref
  modifySession ref fun s => { s with
    epochs := s.epochs.insert session.activeEpochIndex { EpochType.new with
      epochIndex := session.activeEpochIndex
      mostRecentMachineHash := hash } }

/-- The part of StartSession that runs with the server checked in. -/
def startSessionChecked (ref : Nat) (request : StartSessionRequest) : Handler Unit := do
  checkServerVersion ref
  checkServerMachine ref request.machineDirectory
  let config ← getInitialConfig ref
  checkHtifConfig config.htif
  checkRollupConfig ref config
  let currentMcycle ← checkIsYielded ref
  modifySession ref fun session => { session with currentMcycle := currentMcycle }
  startFirstEpoch ref
  finish (.startSession request) (.startSession config)

/-- The blocking Shutdown call of the inner catch clause. Its result is not
    looked at. -/
def shutdownAndRethrow (ref : Nat) (x : Exn) : Handler Unit := do
  let session ← getSession ref
  if session.serverStub then .throw x else .halt .nullStub

/-- The entry `sessions[id] = get_proto_session(request)`, under a new
    generation. -/
def installSession (request : StartSessionRequest) : Handler Nat := do
  let hctx ← getContext
  Prog.modify (S := handlerSignature) fun hctx =>
    { hctx with
      session := some (hctx.generation, getProtoSession hctx.id request)
      generation := hctx.generation + 1 }
  return hctx.generation

/-- `sessions.erase(id)`. -/
def eraseSession : Handler Unit :=
  Prog.modify (S := handlerSignature) fun hctx => { hctx with session := none }

/-- StartSession inside its outer try block. -/
def startSessionBody (self : HandlerId) (peer : String) (request : StartSessionRequest) :
    Handler Unit := do
  let hctx ← getContext
  if hctx.id = "" then
    finishWithError (.startSession request) ⟨.invalidArgument, "session id is empty"⟩
  else if hctx.session.isSome then
    finishWithError (.startSession request) ⟨.alreadyExists, "session id is taken"⟩
  else
    let ref ← installSession request
    autoLock sessionLockField ref "StartSession session lock" do
      modifySession ref fun session =>
        { session with sessionLockReason := getSessionLockReason "StartSession" peer }
      let session ← getSession ref
      checkRequest session request
      triggerAndWaitCheckin self ref spawnServer
      (startSessionChecked ref request).tryCatch (shutdownAndRethrow ref)

/-- `new_StartSession_handler`. -/
def newStartSessionHandler (self : HandlerId) (peer : String) (request : StartSessionRequest) :
    Handler Unit :=
  onArrival <| Prog.tryCatch (startSessionBody self peer request)
    fun
      | .finishErrorYieldNone status => do
        eraseSession
        finishWithError (.startSession request) status
      | x => do
        eraseSession
        finishWithError (.startSession request) (unexpectedException x.what)

end ServerManager
