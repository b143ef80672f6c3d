import ServerManager.Core.Encoding

/-!
# Talking to the Machine Server

The functions through which the handlers use the machine server. Each of them
starts a call, suspends the handler until the response arrives, and turns a bad
status into one of the two exception families. `triggerAndWaitCheckin` is the
one that also waits for the server to come back under a new address: it runs a
trigger, registers the handler in `sessions_waiting_checkin`, arms the deadline
and suspends until a check-in or the deadline resumes it.

`std::chrono` time points are milliseconds on the clock of the context, and the
deadlines given to gRPC are left out: an expired one shows up as the status of
the call.

## Main definitions

* `checkServerStub`, `triggerAndWaitCheckin`: The check-in protocol.
* `snapshot`, `rollback`, `resetIflagsY`, `writeMemoryRange`: Single calls.
* `runMachine`: Running in increments.
* `readVoucher`, `readNotice`, `readReport`, `readException`: Outputs.
* `getProof`, `getRootHash`, `readMemoryRange`: Hashes and proofs.
-/

namespace ServerManager

open Coroutine

variable [Keccak]

/-- The context as it is now. -/
def getContext : Handler HandlerContext := .get .pure

/-! ### Check-in -/

/-- `check_server_stub`. -/
def checkServerStub (ref : Nat) : Handler Unit := do
  let hctx ← getContext
  modifySession ref fun session => { session with serverStub := hctx.newStub }
  if !hctx.newStub then
    throwFinishError .resourceExhausted "unable to create machine stub for session"

/-- Cancel an alarm. One that has fired keeps its successful event. -/
def cancelAlarm (alarms : List AlarmState) (i : Nat) : List AlarmState :=
  alarms.modify i fun a => if a = .running then .cancelled else a

/-- `sessions_waiting_checkin.erase(it)`: the alarm goes with the entry. -/
def eraseCheckin (cctx : CheckinContext) : Handler Unit :=
  Prog.modify (S := handlerSignature) fun hctx =>
    { hctx with
      waitingCheckin := none
      alarms := cancelAlarm hctx.alarms cctx.alarm }

/-- `sessions_waiting_checkin[id] = {self, alarm, nullopt}`. The alarm of an
    entry that was already there is destroyed. -/
def registerCheckin (self : HandlerId) : Handler Unit :=
  Prog.modify (S := handlerSignature) fun hctx =>
    let alarms := match hctx.waitingCheckin with
      | some old => cancelAlarm hctx.alarms old.alarm
      | none => hctx.alarms
    { hctx with
      waitingCheckin := some { coroutine := self, alarm := hctx.alarms.length, status := none }
      alarms := alarms }

/-- `new_CheckinDeadline_handler` up to its first yield: the coroutine starts
    at once, finds the entry and sets its alarm. What it does when the alarm
    comes out of the queue is `checkinDeadlineResumed`. -/
def newCheckinDeadlineHandler : Handler Unit := do
  let hctx ← getContext
  match hctx.waitingCheckin with
  | none => .halt .deadlineNotRegistered
  | some _ => Prog.modify (S := handlerSignature) fun hctx =>
      { hctx with alarms := hctx.alarms ++ [.running] }

/-- `trigger_and_wait_checkin`. -/
def triggerAndWaitCheckin (self : HandlerId) (ref : Nat) (triggerCheckin : Handler Unit) :
    Handler Unit := do
  let _ ← getSession ref
  let hctx ← getContext
  if hctx.waitingCheckin.isSome then .halt .alreadyWaitingCheckin
  triggerCheckin
  let _ ← getSession ref
  registerCheckin self
  newCheckinDeadlineHandler
  .yield .checkin .pure
  let session ← getSession ref
  let hctx ← getContext
  match hctx.waitingCheckin with
  | none => .halt .checkinContextErased
  | some cctx =>
    match cctx.status with
    | none => .halt .checkinStatusNotSet
    | some false => do
      eraseCheckin cctx
      throwTaint ref .internal ("Remote machine check-in has failed on session: " ++ session.id)
    | some true => do
      eraseCheckin cctx
      checkServerStub ref

/-! ### Single calls -/

/-- A call whose failure taints the session. -/
def callOrTaint (ref : Nat) (c : MachineCall) (deadline : String) : Handler c.Body := do
  let reply ← call ref c
  checkStatusOrTaint ref reply.status deadline
  return reply.body

/-- A call whose failure is reported to the client. -/
def callOrFail (ref : Nat) (c : MachineCall) (deadline : String) : Handler c.Body := do
  let reply ← call ref c
  checkStatusOrFail reply.status deadline
  return reply.body

def store (ref : Nat) (directory : String) : Handler Unit :=
  callOrFail ref (.store directory) "store"

def shutdownServer (ref : Nat) : Handler Unit := callOrFail ref .shutdown "fast"

def snapshot (ref : Nat) : Handler Unit := callOrTaint ref .snapshot "fast"

def rollback (ref : Nat) : Handler Unit := callOrTaint ref .rollback "fast"

def resetIflagsY (ref : Nat) : Handler Unit := callOrTaint ref .resetIflagsY "fast"

def getRootHash (ref : Nat) : Handler HashType := do
  let hash ← callOrTaint ref .getRootHash "machine (root hash)"
  ofExcept (getProtoHash hash)

def getProof (ref : Nat) (address log2Size : UInt64) : Handler ProofType := do
  let proof ← callOrTaint ref (.getProof address log2Size) "machine (proof)"
  ofExcept (getProtoMerkleTreeProof proof)

def getHtifFromhost (ref : Nat) : Handler UInt64 := callOrTaint ref (.readCsr .htifFromhost) "fast"

def setHtifFromhost (ref : Nat) (value : UInt64) : Handler Unit :=
  callOrTaint ref (.writeCsr .htifFromhost value) "fast"

/-- `set_htif_yield_ack_data`. -/
def setHtifYieldAckData (ref : Nat) (reqid : UInt64) : Handler Unit := do
  let oldValue ← getHtifFromhost ref
  checkHtifYieldManual ref "htif.fromhost" oldValue
  setHtifFromhost ref (htifReplaceDataField oldValue reqid)

/-- `check_htif_yield_ack_data`. -/
def checkHtifYieldAckData (ref : Nat) (reqid : UInt64) : Handler Unit := do
  let value ← getHtifFromhost ref
  checkHtifYieldManual ref "htif.fromhost" value
  let data := htifDataField value
  if data ≠ reqid then
    throwTaint ref .internal ("invalid data field in htif.fromhost (expected " ++ toString reqid ++
      ", got " ++ toString data ++ ")")

/-- Clear memory ranges one after the other. -/
def replaceMemoryRanges (ref : Nat) : List MemoryRangeConfig → Handler Unit
  | [] => .pure ()
  | config :: rest => do
    callOrTaint ref (.replaceMemoryRange config) "fast"
    replaceMemoryRanges ref rest

/-- `clear_memory_ranges`. -/
def clearMemoryRanges (ref : Nat) : Handler Unit := do
  let session ← getSession ref
  replaceMemoryRanges ref
    [session.memoryRange.rxBuffer.config, session.memoryRange.inputMetadata.config,
      session.memoryRange.voucherHashes.config, session.memoryRange.noticeHashes.config]

/-- `clear_rx_buffer`. -/
def clearRxBuffer (ref : Nat) : Handler Unit := do
  let session ← getSession ref
  replaceMemoryRanges ref [session.memoryRange.rxBuffer.config]

def writeMemoryRange (ref : Nat) (data : Bytes) (drive : MemoryRangeConfig) : Handler Unit :=
  callOrTaint ref (.writeMemory drive.start data) "fast"

def writeEvmAbiString (ref : Nat) (payload : Bytes) (drive : MemoryRangeConfig) : Handler Unit :=
  callOrTaint ref (.writeMemory drive.start (evmAbiString payload)) "fast"

/-! ### Running -/

/-- `static_cast` of a 64-bit unsigned deadline to the signed type of the
    elapsed time. -/
def castDeadline (deadline : UInt64) : Int := (deadline.toNat : Int).bmod (2 ^ 64)

/-- The loop of `run_machine`, with the limit of the next increment. -/
def runIncrements (ref : Nat) (mcycleIncrement maxMcycle : UInt64) (startTime : Int)
    (maxDeadline : UInt64) : Nat → UInt64 → Handler (Option RunResponse)
  | 0, _ => .spin
  | fuel + 1, limit => do
    let runResponse ← callOrTaint ref (.run limit) "advance/inspect state increment"
    if runResponse.iflagsY || runResponse.iflagsX || runResponse.iflagsH ||
        runResponse.mcycle ≥ maxMcycle then
      return some runResponse
    let hctx ← getContext
    if hctx.now - startTime > castDeadline maxDeadline then
      return none
    runIncrements ref mcycleIncrement maxMcycle startTime maxDeadline fuel
      (min (limit + mcycleIncrement) maxMcycle)

/-- `run_machine`. -/
def runMachine (fuel : Nat) (ref : Nat) (currMcycle mcycleIncrement maxMcycle : UInt64)
    (startTime : Int) (maxDeadline : UInt64) : Handler (Option RunResponse) :=
  runIncrements ref mcycleIncrement maxMcycle startTime maxDeadline fuel
    (min (currMcycle + mcycleIncrement) maxMcycle)

/-! ### Reading outputs -/

/-- Read memory and check that all the bytes asked for came back. -/
def readMemory (ref : Nat) (address length : UInt64) : Handler Bytes := do
  let data ← callOrTaint ref (.readMemory address length) "fast"
  if data.length ≠ length.toNat then
    throwTaint ref .internal "read returned wrong number of bytes!"
  return data

/-- `read_memory_range`. -/
def readMemoryRange (ref : Nat) (range : MemoryRangeConfig) : Handler Bytes :=
  readMemory ref range.start range.length

/-- `read_voucher_address_and_payload_data_length`. -/
def readVoucherAddressAndPayloadDataLength (ref : Nat) : Handler (EvmAddressType × UInt64) := do
  let session ← getSession ref
  let data ← readMemory ref session.memoryRange.txBuffer.config.start
    (UInt64.ofNat voucherHeaderLength)
  let payloadDataLength ← getPayloadLength ref
    ((data.drop (evmAbiAddressLength + evmAbiOffsetLength)).take evmAbiLengthLength)
  let address ← getEvmAddress ref
    ((data.drop (evmAbiAddressLength - evmAddressLength)).take evmAddressLength)
  return (address, payloadDataLength)

/-- Read a payload from the tx buffer behind a header. The room after the
    header is an unsigned difference. -/
def readPayloadData (ref : Nat) (payloadDataOffset payloadDataLength : UInt64)
    (outOfBounds : String) : Handler Bytes := do
  let session ← getSession ref
  if payloadDataLength > session.memoryRange.txBuffer.length - payloadDataOffset then
    throwTaint ref .outOfRange outOfBounds
  readMemory ref (session.memoryRange.txBuffer.config.start + payloadDataOffset) payloadDataLength

/-- `read_voucher_payload_data`. -/
def readVoucherPayloadData (ref : Nat) (payloadDataLength : UInt64) : Handler Bytes :=
  readPayloadData ref (UInt64.ofNat voucherHeaderLength) payloadDataLength
    "voucher payload length is out of bounds"

/-- `read_tx_payload_data_length`. -/
def readTxPayloadDataLength (ref : Nat) : Handler UInt64 := do
  let session ← getSession ref
  let data ← readMemory ref session.memoryRange.txBuffer.config.start
    (UInt64.ofNat evmAbiStringHeaderLength)
  getPayloadLength ref ((data.drop evmAbiOffsetLength).take evmAbiLengthLength)

/-- `read_tx_payload_data`. -/
def readTxPayloadData (ref : Nat) (payloadDataLength : UInt64) : Handler Bytes :=
  readPayloadData ref (UInt64.ofNat evmAbiStringHeaderLength) payloadDataLength
    "notice payload length is out of bounds"

/-- `read_voucher`. -/
def readVoucher (ref : Nat) : Handler VoucherType := do
  let (address, payloadDataLength) ← readVoucherAddressAndPayloadDataLength ref
  let payloadData ← readVoucherPayloadData ref payloadDataLength
  return { destination := address, payload := payloadData, hash := none }

/-- `read_notice`. -/
def readNotice (ref : Nat) : Handler NoticeType := do
  let payloadDataLength ← readTxPayloadDataLength ref
  let payloadData ← readTxPayloadData ref payloadDataLength
  return { payload := payloadData, hash := none }

/-- `read_report`. -/
def readReport (ref : Nat) : Handler ReportType := do
  let payloadDataLength ← readTxPayloadDataLength ref
  let payloadData ← readTxPayloadData ref payloadDataLength
  return { payload := payloadData }

/-- `read_exception`. -/
def readException (ref : Nat) : Handler Bytes := do
  let payloadDataLength ← readTxPayloadDataLength ref
  readTxPayloadData ref payloadDataLength

end ServerManager
