import ServerManager.Core.Machine

/-!
# Processing Inputs and Queries

`process_pending_inputs`, which drains the queue of an epoch one input at a
time, and `process_pending_query`, which serves one query. Both take a snapshot
of the machine, write to its receive buffer, run it until it stops for a reason
they understand, and roll back: a query always, an input only when the machine
did not accept it.

Vouchers and notices are handled by the same lines of code twice over, first
for the one and then for the other. `OutputKind` is what differs: the memory
range of the hashes, the tree of the epoch and the text of the error.

## Main definitions

* `autoLock`: The scope of an `auto_lock`.
* `runInput`, `runQuery`: The loops over the stops of the machine.
* `collectOutputs`: Range proof, epoch tree and hashes of one kind of output.
* `processInput`: One iteration of the loop over the pending inputs.
* `processPendingInputs`: The loop.
* `processPendingQuery`: One query.
-/

namespace ServerManager

open Coroutine

variable [Keccak]

/-! ### Locks -/

/-- A lock flag of a session, as `auto_lock` sees it. -/
structure LockField where
  get : SessionType → Bool
  set : Bool → SessionType → SessionType

def sessionLockField : LockField where
  get session := session.sessionLock
  set b session := { session with sessionLock := b }

def processingLockField : LockField where
  get session := session.processingLock
  set b session := { session with processingLock := b }

/-- `auto_lock::acquire`. -/
def LockField.acquire (lock : LockField) (ref : Nat) (name : String) : Handler Unit := do
  let session ← getSession ref
  if lock.get session then .throw (.stdException (name ++ " already locked"))
  modifySession ref (lock.set true)

/-- `auto_lock::release`. -/
def LockField.release (lock : LockField) (ref : Nat) (name : String) : Handler Unit := do
  let session ← getSession ref
  if !lock.get session then .throw (.stdException (name ++ " not locked"))
  modifySession ref (lock.set false)

/-- The scope of an `auto_lock`: acquired at its start, and cleared by the
    destructor however the scope is left, without a test. -/
def autoLock {α : Type} (lock : LockField) (ref : Nat) (name : String) (body : Handler α) :
    Handler α := do
  lock.acquire ref name
  body.andFinally (modifySession ref (lock.set false))

/-! ### Inputs -/

/-- The local variables of one iteration that the run loop fills. -/
structure InputRun where
  skipReason : CompletionStatus
  currentMcycle : UInt64
  vouchers : List VoucherType
  notices : List NoticeType
  reports : List ReportType
  exceptionData : Bytes

/-- The loop that runs the machine on an input, collecting vouchers, notices
    and reports until the input is accepted or there is a reason to skip it. -/
def runInput (fuel : Nat) (ref : Nat) (mcycleIncrement maxMcycle : UInt64) (startTime : Int)
    (maxDeadline : UInt64) : Nat → InputRun → Handler InputRun
  | 0, _ => .spin
  | n + 1, run => do
    match ← runMachine fuel ref run.currentMcycle mcycleIncrement maxMcycle startTime
        maxDeadline with
    | none => return { run with skipReason := .timeLimitExceeded }
    | some r =>
      if r.mcycle ≥ maxMcycle then
        return { run with skipReason := .cycleLimitExceeded }
      if r.iflagsH then
        return { run with skipReason := .machineHalted }
      let yieldReason := (r.tohost <<< 16) >>> 48
      if r.iflagsY then
        if yieldReason = htifYieldReasonRxRejected then
          return { run with skipReason := .rejected }
        else if yieldReason = htifYieldReasonRxAccepted then
          return { run with currentMcycle := r.mcycle }
        else if yieldReason = htifYieldReasonTxException then
          let exceptionData ← readException ref
          return { run with skipReason := .exception, exceptionData := exceptionData }
        else
          throwTaint ref .outOfRange "unknown machine yield reason"
      else if !r.iflagsX then
        throwTaint ref .internal "machine returned without hitting mcycle limit or yielding"
      else if yieldReason = htifYieldReasonTxVoucher then
        let voucher ← readVoucher ref
        runInput fuel ref mcycleIncrement maxMcycle startTime maxDeadline n
          { run with vouchers := run.vouchers ++ [voucher], currentMcycle := r.mcycle }
      else if yieldReason = htifYieldReasonTxNotice then
        let notice ← readNotice ref
        runInput fuel ref mcycleIncrement maxMcycle startTime maxDeadline n
          { run with notices := run.notices ++ [notice], currentMcycle := r.mcycle }
      else if yieldReason = htifYieldReasonTxReport then
        let report ← readReport ref
        runInput fuel ref mcycleIncrement maxMcycle startTime maxDeadline n
          { run with reports := run.reports ++ [report], currentMcycle := r.mcycle }
      else
        runInput fuel ref mcycleIncrement maxMcycle startTime maxDeadline n
          { run with currentMcycle := r.mcycle }

/-- The branch of an iteration for a payload that fits the receive buffer. -/
def runFittingInput (fuel : Nat) (ref : Nat) (index : UInt64) (epochInputIndex : Nat)
    (input : InputType) (run : InputRun) : Handler InputRun := do
  clearMemoryRanges ref
  let session ← getSession ref
  writeEvmAbiString ref input.payload session.memoryRange.rxBuffer.config
  let session ← getSession ref
  writeMemoryRange ref (evmAbiEncodedInputMetadata input.metadata)
    session.memoryRange.inputMetadata.config
  resetIflagsY ref
  checkHtifYieldAckData ref rollupAdvanceState
  let session ← getSession ref
  let hctx ← getContext
  let maxMcycle := session.currentMcycle + session.serverCycles.maxAdvanceState
  let run ← runInput fuel ref session.serverCycles.advanceStateIncrement maxMcycle hctx.now
    session.serverDeadline.advanceState fuel run
  let e ← getEpoch ref index
  if e.vouchersTree.size ≠ epochInputIndex then
    throwTaint ref .internal "inconsistent number of entries in epoch's session vouchers Merkle tree"
  if e.noticesTree.size ≠ epochInputIndex then
    throwTaint ref .internal "inconsistent number of entries in epoch's session notices Merkle tree"
  return run

/-- What differs between vouchers and notices. -/
structure OutputKind where
  range : MemoryRangesType → MemoryRangeDescriptionType
  tree : EpochType → CompleteMerkleTree HashType
  setTree : CompleteMerkleTree HashType → EpochType → EpochType
  disagree : String

def voucherKind : OutputKind where
  range ranges := ranges.voucherHashes
  tree e := e.vouchersTree
  setTree tree e := { e with vouchersTree := tree }
  disagree := "number of vouchers yielded and non-zero voucher hashes disagree"

def noticeKind : OutputKind where
  range ranges := ranges.noticeHashes
  tree e := e.noticesTree
  setTree tree e := { e with noticesTree := tree }
  disagree := "number notices yielded and non-zero notice hashes disagree"

/-- Push a leaf on one of the trees of the epoch, and get its proof. -/
def pushLeaf (ref : Nat) (index : UInt64) (kind : OutputKind) (epochInputIndex : Nat)
    (hash : HashType) : Handler ProofType := do
  let e ← getEpoch ref index
  let tree ← ofExcept ((kind.tree e).pushBack hasherType hash)
  modifyEpoch ref index (kind.setTree tree)
  ofExcept (tree.getProof (UInt64.ofNat epochInputIndex <<< UInt64.ofNat log2KeccakSize)
    log2KeccakSize)

/-- The hash of each of `n` outputs from `entry` on with its proof in the
    memory range. -/
def getKeccaks (ref : Nat) (range : MemoryRangeDescriptionType) (hashes : Bytes) :
    Nat → Nat → Handler (List KeccakType)
  | _, 0 => .pure []
  | entry, n + 1 => do
    let keccak ← getHash ref ((hashes.drop (entry * keccakSize)).take keccakSize)
    let proof ← getProof ref (range.start + UInt64.ofNat (entry * keccakSize))
      (UInt64.ofNat log2KeccakSize)
    let sliced ← ofExcept (proof.slice hasherType (castInt range.log2Size) log2KeccakSize)
    let rest ← getKeccaks ref range hashes (entry + 1) n
    return { keccak := keccak, keccakInHashes := sliced } :: rest

/-- The proof of the hashes range in the machine, its leaf in the epoch tree,
    and the hash of each of the `count` outputs the machine yielded. -/
def collectOutputs (ref : Nat) (index : UInt64) (kind : OutputKind) (epochInputIndex count : Nat) :
    Handler (ProofType × ProofType × List KeccakType) := do
  let session ← getSession ref
  let range := kind.range session.memoryRange
  let hashesInMachine ← getProof ref range.start range.log2Size
  let hashesInEpoch ← pushLeaf ref index kind epochInputIndex hashesInMachine.targetHash
  let hashes ← readMemoryRange ref range.config
  let hashCount := countNullTerminatedEntries hashes keccakSize
  if hashCount ≠ count then
    throwTaint ref .invalidArgument kind.disagree
  let keccaks ← getKeccaks ref range hashes 0 hashCount
  return (hashesInMachine, hashesInEpoch, keccaks)

def VoucherType.setHash (voucher : VoucherType) (keccak : KeccakType) : VoucherType :=
  { voucher with hash := some keccak }

def NoticeType.setHash (notice : NoticeType) (keccak : KeccakType) : NoticeType :=
  { notice with hash := some keccak }

/-- The branch of an iteration for an accepted input. -/
def recordAccepted (ref : Nat) (index : UInt64) (globalInputIndex : UInt64) (epochInputIndex : Nat)
    (run : InputRun) : Handler Unit := do
  let (voucherHashesInMachine, voucherHashesInEpoch, voucherKeccaks) ←
    collectOutputs ref index voucherKind epochInputIndex run.vouchers.length
  let (noticeHashesInMachine, noticeHashesInEpoch, noticeKeccaks) ←
    collectOutputs ref index noticeKind epochInputIndex run.notices.length
  let hash ← getRootHash ref
  modifyEpoch ref index fun e => { e with
    mostRecentMachineHash := hash
    processedInputs := e.processedInputs ++
      [{ inputIndex := globalInputIndex
         epochInputIndex := UInt64.ofNat epochInputIndex
         mostRecentMachineHash := hash
         voucherHashesInEpoch := voucherHashesInEpoch
         noticeHashesInEpoch := noticeHashesInEpoch
         status := run.skipReason
         processed := .accepted
           { voucherHashesInMachine := voucherHashesInMachine
             vouchers := run.vouchers.zipWith VoucherType.setHash voucherKeccaks
             noticeHashesInMachine := noticeHashesInMachine
             notices := run.notices.zipWith NoticeType.setHash noticeKeccaks }
         reports := run.reports }] }
  modifySession ref fun session => { session with currentMcycle := run.currentMcycle }

/-- The branch of an iteration for a skipped input. -/
def recordSkipped (self : HandlerId) (ref : Nat) (index : UInt64) (globalInputIndex : UInt64)
    (epochInputIndex : Nat) (run : InputRun) : Handler Unit := do
  triggerAndWaitCheckin self ref (rollback ref)
  let voucherHashesInEpoch ← pushLeaf ref index voucherKind epochInputIndex zeroHash
  let noticeHashesInEpoch ← pushLeaf ref index noticeKind epochInputIndex zeroHash
  let hash ← getRootHash ref
  let e ← getEpoch ref index
  if e.mostRecentMachineHash ≠ hash then
    throwTaint ref .internal "machine hash is changed after rollback"
  modifyEpoch ref index fun e => { e with
    processedInputs := e.processedInputs ++
      [{ inputIndex := globalInputIndex
         epochInputIndex := UInt64.ofNat epochInputIndex
         mostRecentMachineHash := e.mostRecentMachineHash
         voucherHashesInEpoch := voucherHashesInEpoch
         noticeHashesInEpoch := noticeHashesInEpoch
         status := run.skipReason
         processed := .exception run.exceptionData
         reports := run.reports }] }

/-- Run the machine on an input whose payload fits the receive buffer, and skip
    one that does not. -/
def executeInput (fuel : Nat) (ref : Nat) (index : UInt64) (epochInputIndex : Nat)
    (input : InputType) : Handler InputRun := do
  let session ← getSession ref
  let run : InputRun :=
    { skipReason := .accepted
      currentMcycle := session.currentMcycle
      vouchers := []
      notices := []
      reports := []
      exceptionData := [] }
  if input.payload.length + evmAbiStringHeaderLength ≤
      session.memoryRange.rxBuffer.length.toNat then
    runFittingInput fuel ref index epochInputIndex input run
  else
    return { run with skipReason := .payloadLengthLimitExceeded }

/-- Record an input as accepted or as skipped. -/
def recordInput (self : HandlerId) (ref : Nat) (index : UInt64) (globalInputIndex : UInt64)
    (epochInputIndex : Nat) (run : InputRun) : Handler Unit :=
  if run.skipReason = .accepted then
    recordAccepted ref index globalInputIndex epochInputIndex run
  else
    recordSkipped self ref index globalInputIndex epochInputIndex run

/-- Count the input and remove it from the queue. -/
def popInput (ref : Nat) (index : UInt64) : Handler Unit := do
  modifySession ref fun session =>
    { session with processedInputCount := session.processedInputCount + 1 }
  modifyEpoch ref index fun e => { e with pendingInputs := e.pendingInputs.tail }

/-- One iteration of the loop over the pending inputs, up to the input being
    recorded and removed from the queue. -/
def processInput (fuel : Nat) (self : HandlerId) (ref : Nat) (index : UInt64) (input : InputType) :
    Handler Unit := do
  let session ← getSession ref
  let e ← getEpoch ref index
  let globalInputIndex := session.processedInputCount
  let epochInputIndex := e.processedInputs.length
  triggerAndWaitCheckin self ref (snapshot ref)
  let run ← executeInput fuel ref index epochInputIndex input
  recordInput self ref index globalInputIndex epochInputIndex run
  popInput ref index

/-- Hand the machine over to a parked query: its coroutine goes in the
    completion queue and `self` takes its place in the query. -/
def handOver (self : HandlerId) (ref : Nat) (index : UInt64) (q : QueryType) : Handler Unit := do
  enqueueCompletionQueue q.coroutine
  modifyEpoch ref index fun e =>
    { e with pendingQuery := e.pendingQuery.map fun q => { q with coroutine := some self } }

/-- The loop of `process_pending_inputs`. -/
def pendingInputsLoop (fuel : Nat) (self : HandlerId) (ref : Nat) (index : UInt64) :
    Nat → Handler Unit
  | 0 => .spin
  | n + 1 => do
    let e ← getEpoch ref index
    match e.pendingInputs with
    | [] => return
    | input :: _ =>
      processInput fuel self ref index input
      let e ← getEpoch ref index
      match e.pendingQuery with
      | some q =>
        handOver self ref index q
        .yield .handOff fun _ => pendingInputsLoop fuel self ref index n
      | none => pendingInputsLoop fuel self ref index n

/-- `process_pending_inputs`. -/
def processPendingInputs (fuel : Nat) (self : HandlerId) (ref : Nat) (index : UInt64) :
    Handler Unit := do
  let session ← getSession ref
  if session.processingLock then
    throwTaint ref .internal "concurrent input processing detected in session"
  autoLock processingLockField ref "process_pending_inputs processing lock"
    (pendingInputsLoop fuel self ref index fuel)

/-! ### Queries -/

/-- Read the pending query through a captured reference. -/
def getQuery (ref : Nat) (index : UInt64) : Handler QueryType := do
  let e ← getEpoch ref index
  match e.pendingQuery with
  | some q => return q
  | none => .halt .useAfterFree

/-- Write the pending query through a captured reference. -/
def modifyQuery (ref : Nat) (index : UInt64) (f : QueryType → QueryType) : Handler Unit := do
  let q ← getQuery ref index
  modifyEpoch ref index fun e => { e with pendingQuery := some (f q) }

/-- The loop that runs the machine on a query. -/
def runQuery (fuel : Nat) (ref : Nat) (index : UInt64) (mcycleIncrement maxMcycle : UInt64)
    (startTime : Int) (maxDeadline : UInt64) : Nat → UInt64 → Handler Unit
  | 0, _ => .spin
  | n + 1, currentMcycle => do
    let setStatus := fun status : CompletionStatus =>
      modifyQuery ref index fun q => { q with status := status }
    match ← runMachine fuel ref currentMcycle mcycleIncrement maxMcycle startTime maxDeadline with
    | none => setStatus .timeLimitExceeded
    | some r =>
      let yieldReason := (r.tohost <<< 16) >>> 48
      if r.mcycle ≥ maxMcycle then
        setStatus .cycleLimitExceeded
      else if r.iflagsH then
        setStatus .machineHalted
      else if r.iflagsY then
        if yieldReason = htifYieldReasonRxRejected then
          setStatus .rejected
        else if yieldReason = htifYieldReasonRxAccepted then
          setStatus .accepted
        else if yieldReason = htifYieldReasonTxException then
          setStatus .exception
          let exceptionData ← readException ref
          modifyQuery ref index fun q => { q with exceptionData := some exceptionData }
        else
          throwTaint ref .outOfRange "unknown machine yield reason"
      else if !r.iflagsX then
        throwTaint ref .internal "machine returned without hitting mcycle limit or yielding"
      else if yieldReason = htifYieldReasonTxReport then
        let report ← readReport ref
        modifyQuery ref index fun q => { q with reports := q.reports ++ [report] }
        runQuery fuel ref index mcycleIncrement maxMcycle startTime maxDeadline n r.mcycle
      else
        runQuery fuel ref index mcycleIncrement maxMcycle startTime maxDeadline n r.mcycle

/-- Run the machine on the pending query. -/
def executeQuery (fuel : Nat) (ref : Nat) (index : UInt64) : Handler Unit := do
  clearRxBuffer ref
  let session ← getSession ref
  let q ← getQuery ref index
  writeEvmAbiString ref q.payload session.memoryRange.rxBuffer.config
  resetIflagsY ref
  setHtifYieldAckData ref rollupInspectState
  let session ← getSession ref
  let hctx ← getContext
  modifyQuery ref index fun q => { q with status := .accepted }
  runQuery fuel ref index session.serverCycles.inspectStateIncrement
    (session.currentMcycle + session.serverCycles.maxInspectState) hctx.now
    session.serverDeadline.inspectState fuel session.currentMcycle

/-- `process_pending_query`. -/
def processPendingQuery (fuel : Nat) (self : HandlerId) (ref : Nat) (index : UInt64) :
    Handler Unit := do
  let e ← getEpoch ref index
  if e.pendingQuery.isNone then return
  let session ← getSession ref
  modifyQuery ref index fun q => { q with processedInputCount := session.processedInputCount }
  let q ← getQuery ref index
  if q.payload.length + evmAbiStringHeaderLength > session.memoryRange.rxBuffer.length.toNat then
    modifyQuery ref index fun q => { q with status := .payloadLengthLimitExceeded }
    return
  triggerAndWaitCheckin self ref (snapshot ref)
  executeQuery fuel ref index
  triggerAndWaitCheckin self ref (rollback ref)

end ServerManager
