import ServerManager.Coroutine.Protocol
import ServerManager.Core.Dispatch

/-!
# The Protocol of the Handlers

Where the handlers of one session can be parked, and everything a segment of
any of them can do. The relation `Trans` is the whole behaviour of the manager
towards one session, with the machine server, the clock and the contents of the
messages abstracted away: it has one constructor for each way from one
suspension to the next, and the invariants of the session are proved on it.

`View` is the part of the context that decides these ways. What is left out
never does: the lock reason, the taint status, the stub, the address, the
alarms, and the fields that are set once.

The session is the one of generation 0 and is never erased here. StartSession
and EndSession are not among the handlers of this protocol.

## Main definitions

* `View`: What matters of a context.
* `Stage`, `Phase`: Where a handler is parked.
* `TreeChange`, `RecordChange`, `QueryChange`: What may happen to an epoch.
* `Starts`: The ways into a machine transaction.
* `Taints`: The end of a handler in a tainting catch clause.
* `Trans`: What a segment can do.
* `sessionProtocol`: The protocol.
-/

namespace ServerManager

open Coroutine

/-- The part of a context that decides what its handlers do to each other. -/
structure View where
  lock : Bool
  processing : Bool
  tainted : Bool
  newStub : Bool
  active : UInt64
  count : UInt64
  mcycle : UInt64
  epochs : UInt64 → Option EpochType
  waiting : Option CheckinContext
  queue : List (Option HandlerId)
  sent : List (Rpc × Answer)

namespace View

/-- The view of a context and the session in it. -/
def of (hctx : HandlerContext) : View :=
  match hctx.session with
  | some (_, session) =>
    { lock := session.sessionLock
      processing := session.processingLock
      tainted := session.tainted
      newStub := hctx.newStub
      active := session.activeEpochIndex
      count := session.processedInputCount
      mcycle := session.currentMcycle
      epochs := fun i => session.epochs.lookup i
      waiting := hctx.waitingCheckin
      queue := hctx.completionQueue
      sent := hctx.sent }
  | none =>
    { lock := false, processing := false, tainted := false, newStub := hctx.newStub,
      active := 0, count := 0, mcycle := 0, epochs := fun _ => none,
      waiting := hctx.waitingCheckin, queue := hctx.completionQueue, sent := hctx.sent }

/-- The view after the session was written. -/
def withSession (v : View) (session : SessionType) : View :=
  { v with
    lock := session.sessionLock
    processing := session.processingLock
    tainted := session.tainted
    active := session.activeEpochIndex
    count := session.processedInputCount
    mcycle := session.currentMcycle
    epochs := fun i => session.epochs.lookup i }

/-- Change an epoch, if it is there. -/
def mapEpoch (v : View) (index : UInt64) (f : EpochType → EpochType) : View :=
  { v with epochs := Function.update v.epochs index ((v.epochs index).map f) }

/-- Add to what was sent. -/
def answer (v : View) (rpc : Rpc) (a : Answer) : View := { v with sent := v.sent ++ [(rpc, a)] }

/-- Put a coroutine in the completion queue, unless the pointer is null. -/
def wake (v : View) : Option HandlerId → View
  | some g => { v with queue := v.queue ++ [some g] }
  | none => v

end View

/-- Where in a transaction a handler is parked: in the snapshot request that
    starts it, in some later call, or waiting for a check-in. -/
inductive Stage
  | snapshot | calling | waiting
  deriving DecidableEq

/-- Where a handler is parked, with what it will still need: the epoch it works
    on, the number of the input, and the coroutine to resume on exit. -/
inductive Phase
  /-- Not yet run. -/
  | fresh
  /-- An error was sent, and there is nothing left to do. -/
  | refused
  /-- The lock is held until the acknowledgement of the answer. -/
  | reporting
  /-- FinishEpoch in the store call, with the lock held. -/
  | storing (index : UInt64)
  /-- AdvanceState before the acknowledgement, with the lock held. -/
  | accepted (index : UInt64)
  /-- AdvanceState working on an input. -/
  | advancing (index number : UInt64) (stage : Stage)
  /-- AdvanceState between two inputs, until a query is done. -/
  | handedOff (index : UInt64)
  /-- AdvanceState in a catch clause, until a query is done. -/
  | leaving
  /-- InspectState until the inputs let it in, with the lock held. -/
  | queued (index : UInt64)
  /-- InspectState working on its query, with the lock held. -/
  | inspecting (index : UInt64) (coroutine : Option HandlerId) (stage : Stage)
  /-- InspectState before the acknowledgement, with the lock held. -/
  | inspected (coroutine : Option HandlerId)
  /-- CheckIn before the acknowledgement. -/
  | checkedIn (coroutine : HandlerId)
  /-- CheckIn or the deadline, resuming the coroutine that waits. -/
  | resuming (coroutine : HandlerId)
  deriving DecidableEq

namespace Phase

/-- Parked on an operation whose completion is an event. -/
def completes : Phase → Bool
  | .advancing _ _ stage | .inspecting _ _ stage => stage ≠ .waiting
  | .refused | .reporting | .storing _ | .accepted _ | .inspected _ | .checkedIn _ => true
  | _ => false

/-- The epoch a parked handler has a reference to and will use again. -/
def epoch : Phase → Option UInt64
  | .storing index | .accepted index | .advancing index _ _ | .handedOff index
  | .queued index | .inspecting index _ _ => some index
  | _ => none

/-- InspectState with a query in the epoch. -/
def asking : Phase → Bool
  | .queued _ | .inspecting .. => true
  | _ => false

end Phase

/-! ### Changes to an epoch -/

/-- Only the trees change. -/
def TreeChange (f : EpochType → EpochType) : Prop :=
  ∀ e, f e = { e with vouchersTree := (f e).vouchersTree, noticesTree := (f e).noticesTree }

/-- An input is recorded under a number and removed from the queue. -/
def RecordChange (number : UInt64) (f : EpochType → EpochType) : Prop :=
  ∀ e, ∃ i : ProcessedInputType, i.inputIndex = number ∧
    f e = { e with
      vouchersTree := (f e).vouchersTree
      noticesTree := (f e).noticesTree
      mostRecentMachineHash := (f e).mostRecentMachineHash
      processedInputs := e.processedInputs ++ [i]
      pendingInputs := e.pendingInputs.tail }

/-- Only the query changes, and not the coroutine in it. -/
def QueryChange (f : EpochType → EpochType) : Prop :=
  ∀ e, f e = { e with pendingQuery := (f e).pendingQuery } ∧
    (f e).pendingQuery.map QueryType.coroutine = e.pendingQuery.map QueryType.coroutine

/-- The query is gone. -/
def clearQuery (e : EpochType) : EpochType := { e with pendingQuery := none }

/-- A query is there. -/
def setQuery (q : QueryType) (e : EpochType) : EpochType := { e with pendingQuery := some q }

/-- The coroutine in the query is `h`. -/
def setCoroutine (h : HandlerId) (e : EpochType) : EpochType :=
  { e with pendingQuery := e.pendingQuery.map fun q => { q with coroutine := some h } }

/-- The check-in entry after a segment that began in a stage: a handler that
    waited for a check-in erases the entry before anything else. -/
def settled : Stage → Option CheckinContext → Option CheckinContext
  | .waiting, _ => none
  | _, old => old

/-- The check-in entry after a segment inside a transaction: settled, and then
    registered if the handler parks to wait for a check-in. -/
def Waits (h : HandlerId) (stage : Stage) (old : Option CheckinContext) :
    Stage → Option CheckinContext → Prop
  | .snapshot, _ => False
  | .calling, new => new = settled stage old
  | .waiting, new => stage ≠ .waiting ∧ ∃ alarm,
      new = some { coroutine := h, alarm := alarm, status := none }

/-- The check-in came, and no stub can be made for the address it came from. -/
structure StubLost (v : View) (stage : Stage) : Prop where
  waits : stage = .waiting
  stub : v.newStub = false
  checked : ∃ cctx, v.waiting = some cctx ∧ cctx.status = some true

/-! ### The ways of a handler -/

/-- What FinishEpoch did to the epochs: closed one, and opened the next. -/
def View.finishEpoch [Keccak] (v : View) (index : UInt64) (e : EpochType) : View :=
  let finished := (finishedEpoch e).1
  { v with
    active := v.active + 1
    epochs := Function.update (Function.update v.epochs index (some finished)) (v.active + 1)
      (some { EpochType.new with
        epochIndex := v.active + 1
        mostRecentMachineHash := finished.mostRecentMachineHash }) }

/-- The input a request stands for. -/
def requestInput (request : AdvanceStateRequest) : Option InputType := do
  let m ← request.inputMetadata
  let sender ← m.msgSender
  if h : sender.length = 20 then
    some
      { metadata :=
          { msgSender := ⟨sender, h⟩
            blockNumber := m.blockNumber
            timestamp := m.timestamp
            epochIndex := m.epochIndex
            inputIndex := m.inputIndex }
        payload := request.inputPayload }
  else none

/-- The end of a handler of AdvanceState in a catch clause that taints the
    session, from the state in which its locks are released. A query that is
    parked is handed the machine. -/
inductive Taints [Keccak] (h : HandlerId) (v : View) : Option Phase → View → Prop
  | quiet {e : EpochType} (he : v.epochs v.active = some e) (hq : e.pendingQuery = none) :
      Taints h v none { v with tainted := true }
  | missing (he : v.epochs v.active = none) :
      Taints h v none { v with
        tainted := true
        epochs := Function.update v.epochs v.active (some EpochType.new) }
  | handOver {e : EpochType} {q : QueryType} (he : v.epochs v.active = some e)
      (hq : e.pendingQuery = some q) :
      Taints h v (some .leaving) { v.mapEpoch v.active (setCoroutine h) with
        tainted := true
        queue := v.queue ++ [q.coroutine] }

/-- The ways into a machine transaction, up to the test whether a check-in is
    awaited already. -/
inductive Starts (h : HandlerId) : Rpc → Phase → View → Phase → View → Prop
  | accepted {request : AdvanceStateRequest} {v : View} {index : UInt64} {e : EpochType}
      (hlock : v.lock = true) (he : v.epochs index = some e) (hlen : e.pendingInputs.length = 1)
      (hproc : v.processing = false) :
      Starts h (.advanceState request) (.accepted index) v (.advancing index v.count .snapshot)
        { v with lock := false, processing := true }
  | handedOff {request : AdvanceStateRequest} {v : View} {index : UInt64} {e : EpochType}
      (he : v.epochs index = some e) (hpend : e.pendingInputs ≠ []) :
      Starts h (.advanceState request) (.handedOff index) v (.advancing index v.count .snapshot) v
  | recorded {request : AdvanceStateRequest} {v : View} {index number : UInt64} {stage : Stage}
      {e : EpochType} {f : EpochType → EpochType} {mcycle : UInt64}
      (he : v.epochs index = some e) (hf : RecordChange number f)
      (hq : e.pendingQuery = none) (hpend : (f e).pendingInputs ≠ []) :
      Starts h (.advanceState request) (.advancing index number stage) v
        (.advancing index (v.count + 1) .snapshot)
        { v.mapEpoch index f with
          count := v.count + 1
          mcycle := mcycle
          waiting := settled stage v.waiting }
  | inspect {payload : Bytes} {v : View} {e : EpochType} {q : QueryType}
      (hlock : v.lock = false) (htaint : v.tainted = false) (he : v.epochs v.active = some e)
      (hq : e.pendingQuery = none) (hpend : e.pendingInputs = []) (hco : q.coroutine = none) :
      Starts h (.inspectState payload) .fresh v (.inspecting v.active none .snapshot)
        { v.mapEpoch v.active (setQuery q) with lock := true }
  | queued {payload : Bytes} {v : View} {index : UInt64} {e : EpochType} {q : QueryType}
      {f : EpochType → EpochType} (htaint : v.tainted = false) (he : v.epochs index = some e)
      (hq : e.pendingQuery = some q) (hf : QueryChange f) :
      Starts h (.inspectState payload) (.queued index) v
        (.inspecting index q.coroutine .snapshot) (v.mapEpoch index f)

/-- What FinishEpoch does from the moment it has nothing to wait for, given the
    epoch: the answer with the lock held, or an exception before or after the
    next epoch was started. -/
inductive Finishes [Keccak] (request : FinishEpochRequest) (v : View) (e : EpochType) :
    Phase → View → Prop
  | answered {response : FinishEpochResponse} {e' : EpochType}
      (he : (v.finishEpoch request.activeEpochIndex e).epochs request.activeEpochIndex = some e')
      (hr : setProtoFinishEpochResponse e' = .ok response) :
      Finishes request v e .reporting
        ((v.finishEpoch request.activeEpochIndex e).answer (.finishEpoch request)
          (.finish (.finishEpoch response)))
  | proofFailed {status : Status} :
      Finishes request v e .refused
        ({ v with
          lock := false
          epochs := Function.update v.epochs request.activeEpochIndex
            (some (finishedEpoch e).1) }.answer (.finishEpoch request) (.finishWithError status))
  | responseFailed {status : Status} :
      Finishes request v e .refused
        ({ v.finishEpoch request.activeEpochIndex e with lock := false }.answer
          (.finishEpoch request) (.finishWithError status))

/-- RPCs that lock the session, look at it or delete from it, answer, and
    unlock it after the acknowledgement. -/
def Reports : Rpc → Prop
  | .finishEpoch _ | .deleteEpoch _ | .getSessionStatus | .getEpochStatus _ => True
  | _ => False

/-- What a segment of a handler can do: from the phase it was parked in, to the
    phase it parks in or to its end. -/
inductive Trans [Keccak] (h : HandlerId) : Rpc → Phase → View → Option Phase → View → Prop
  -- every RPC
  | ignore {rpc : Rpc} {v : View} : Trans h rpc .fresh v none v
  | refuse {rpc : Rpc} {v : View} {status : Status} :
      Trans h rpc .fresh v (some .refused) (v.answer rpc (.finishWithError status))
  | refused {rpc : Rpc} {v : View} : Trans h rpc .refused v none v
  -- the RPCs that only report
  | report {rpc : Rpc} {v : View} {response : Response}
      (hrpc : rpc = .getSessionStatus ∨ ∃ index, rpc = .getEpochStatus index)
      (hlock : v.lock = false) :
      Trans h rpc .fresh v (some .reporting)
        ({ v with lock := true }.answer rpc (.finish response))
  | delete {v : View} {index : UInt64} {e : EpochType} (hlock : v.lock = false)
      (he : v.epochs index = some e) (hstate : e.state ≠ .active) (hne : v.active ≠ index) :
      Trans h (.deleteEpoch index) .fresh v (some .reporting)
        ({ v with lock := true, epochs := Function.update v.epochs index none }.answer
          (.deleteEpoch index) (.finish .void))
  | reported {rpc : Rpc} {v : View} : Trans h rpc .reporting v none { v with lock := false }
  -- FinishEpoch
  | store {request : FinishEpochRequest} {v : View} {e : EpochType} (hlock : v.lock = false)
      (htaint : v.tainted = false) (hmax : v.active ≠ 0xFFFFFFFFFFFFFFFF)
      (hdir : request.storageDirectory ≠ "")
      (he : v.epochs request.activeEpochIndex = some e) (hstate : e.state = .active)
      (hpend : e.pendingInputs = []) :
      Trans h (.finishEpoch request) .fresh v (some (.storing request.activeEpochIndex))
        { v with lock := true }
  | finish {request : FinishEpochRequest} {v v' : View} {e : EpochType} {ph : Phase}
      (hlock : v.lock = false) (htaint : v.tainted = false)
      (hmax : v.active ≠ 0xFFFFFFFFFFFFFFFF) (hdir : request.storageDirectory = "")
      (he : v.epochs request.activeEpochIndex = some e) (hstate : e.state = .active)
      (hpend : e.pendingInputs = []) (hf : Finishes request { v with lock := true } e ph v') :
      Trans h (.finishEpoch request) .fresh v (some ph) v'
  | stored {request : FinishEpochRequest} {v v' : View} {e : EpochType} {ph : Phase}
      (he : v.epochs request.activeEpochIndex = some e) (hf : Finishes request v e ph v') :
      Trans h (.finishEpoch request) (.storing request.activeEpochIndex) v (some ph) v'
  | storeFailed {request : FinishEpochRequest} {v : View} {status : Status} :
      Trans h (.finishEpoch request) (.storing request.activeEpochIndex) v (some .refused)
        ({ v with lock := false }.answer (.finishEpoch request) (.finishWithError status))
  -- machine transactions
  | start {rpc : Rpc} {ph ph' : Phase} {v v' : View} (hs : Starts h rpc ph v ph' v')
      (hwait : v'.waiting = none) : Trans h rpc ph v (some ph') v'
  -- AdvanceState
  | accept {request : AdvanceStateRequest} {v : View} {e : EpochType} {input : InputType}
      (hlock : v.lock = false) (htaint : v.tainted = false)
      (hindex : request.activeEpochIndex = v.active) (he : v.epochs v.active = some e)
      (hstate : e.state = .active)
      (hnumber : input.metadata.inputIndex = UInt64.ofNat e.pendingInputs.length + v.count)
      (hcurrent : request.currentInputIndex = input.metadata.inputIndex)
      (hinput : requestInput request = some input) :
      Trans h (.advanceState request) .fresh v (some (.accepted v.active))
        ({ v.mapEpoch v.active (fun e => { e with pendingInputs := e.pendingInputs ++ [input] })
            with lock := true }.answer (.advanceState request) (.finish .void))
  | acceptedIdle {request : AdvanceStateRequest} {v : View} {index : UInt64} {e : EpochType}
      (hlock : v.lock = true) (he : v.epochs index = some e)
      (hlen : e.pendingInputs.length ≠ 1) :
      Trans h (.advanceState request) (.accepted index) v none { v with lock := false }
  | acceptedTaint {request : AdvanceStateRequest} {v v' : View} {index : UInt64}
      {t : Option Phase}
      (hwhy : v.lock = false ∨ (v.processing = true ∧
        ∃ e, v.epochs index = some e ∧ e.pendingInputs.length = 1))
      (ht : Taints h { v with lock := false } t v') :
      Trans h (.advanceState request) (.accepted index) v t v'
  | advance {request : AdvanceStateRequest} {v : View} {index number : UInt64}
      {stage stage' : Stage} {f : EpochType → EpochType} {entry : Option CheckinContext}
      (hf : TreeChange f) (hw : Waits h stage v.waiting stage' entry) :
      Trans h (.advanceState request) (.advancing index number stage) v
        (some (.advancing index number stage')) { v.mapEpoch index f with waiting := entry }
  | advanceTaint {request : AdvanceStateRequest} {v v' : View} {index number : UInt64}
      {stage : Stage} {t : Option Phase} {f : EpochType → EpochType} (hf : TreeChange f)
      (ht : Taints h { v.mapEpoch index f with
        waiting := settled stage v.waiting, processing := false, lock := false } t v')
      (hmade : ¬ StubLost v stage) :
      Trans h (.advanceState request) (.advancing index number stage) v t v'
  | advanceFail {request : AdvanceStateRequest} {v : View} {index number : UInt64}
      {stage : Stage} {status : Status} {f : EpochType → EpochType} (hf : TreeChange f)
      (hstub : StubLost v stage) :
      Trans h (.advanceState request) (.advancing index number stage) v (some .refused)
        ({ v.mapEpoch index f with
          waiting := settled stage v.waiting, processing := false, lock := false }.answer
          (.advanceState request) (.finishWithError status))
  | advancePark {request : AdvanceStateRequest} {v : View} {index number : UInt64}
      {stage : Stage} {e : EpochType} {q : QueryType} {f : EpochType → EpochType}
      {mcycle : UInt64} (he : v.epochs index = some e) (hf : RecordChange number f)
      (hq : e.pendingQuery = some q) :
      Trans h (.advanceState request) (.advancing index number stage) v
        (some (.handedOff index))
        { v.mapEpoch index (fun e => setCoroutine h (f e)) with
          count := v.count + 1
          mcycle := mcycle
          waiting := settled stage v.waiting
          queue := v.queue ++ [q.coroutine] }
  | advanceExit {request : AdvanceStateRequest} {v : View} {index number : UInt64}
      {stage : Stage} {e : EpochType} {f : EpochType → EpochType} {mcycle : UInt64}
      (he : v.epochs index = some e) (hf : RecordChange number f)
      (hq : e.pendingQuery = none) (hpend : (f e).pendingInputs = []) :
      Trans h (.advanceState request) (.advancing index number stage) v none
        { v.mapEpoch index f with
          count := v.count + 1
          mcycle := mcycle
          waiting := settled stage v.waiting
          processing := false
          lock := false }
  | handedExit {request : AdvanceStateRequest} {v : View} {index : UInt64} {e : EpochType}
      (he : v.epochs index = some e) (hpend : e.pendingInputs = []) :
      Trans h (.advanceState request) (.handedOff index) v none
        { v with processing := false, lock := false }
  | left {request : AdvanceStateRequest} {v : View} :
      Trans h (.advanceState request) .leaving v none v
  -- InspectState
  | queue {payload : Bytes} {v : View} {e : EpochType} {q : QueryType} (hlock : v.lock = false)
      (htaint : v.tainted = false) (he : v.epochs v.active = some e)
      (hq : e.pendingQuery = none) (hpend : e.pendingInputs ≠ []) (hco : q.coroutine = some h) :
      Trans h (.inspectState payload) .fresh v (some (.queued v.active))
        { v.mapEpoch v.active (setQuery q) with lock := true }
  | inspectQuick {payload : Bytes} {v : View} {e : EpochType} {response : Response}
      (hlock : v.lock = false) (htaint : v.tainted = false) (he : v.epochs v.active = some e)
      (hq : e.pendingQuery = none) (hpend : e.pendingInputs = []) :
      Trans h (.inspectState payload) .fresh v (some (.inspected none))
        ({ v with lock := true }.answer (.inspectState payload) (.finish response))
  | queuedQuick {payload : Bytes} {v : View} {index : UInt64} {e : EpochType} {q : QueryType}
      {response : Response} (htaint : v.tainted = false) (he : v.epochs index = some e)
      (hq : e.pendingQuery = some q) :
      Trans h (.inspectState payload) (.queued index) v (some (.inspected q.coroutine))
        ((v.mapEpoch index clearQuery).answer (.inspectState payload) (.finish response))
  | queuedRefuse {payload : Bytes} {v : View} {index : UInt64} {e : EpochType} {q : QueryType}
      {status : Status} (htaint : v.tainted = true) (he : v.epochs index = some e)
      (hq : e.pendingQuery = some q) :
      Trans h (.inspectState payload) (.queued index) v (some .refused)
        ({ v.wake q.coroutine with lock := false }.answer (.inspectState payload)
          (.finishWithError status))
  | inspect {payload : Bytes} {v : View} {index : UInt64} {coroutine : Option HandlerId}
      {stage stage' : Stage} {f : EpochType → EpochType} {entry : Option CheckinContext}
      (hf : QueryChange f) (hw : Waits h stage v.waiting stage' entry) :
      Trans h (.inspectState payload) (.inspecting index coroutine stage) v
        (some (.inspecting index coroutine stage'))
        { v.mapEpoch index f with waiting := entry }
  | inspectFail {payload : Bytes} {v : View} {index : UInt64} {coroutine : Option HandlerId}
      {stage : Stage} {status : Status} {f : EpochType → EpochType} {taint : Bool}
      (hf : QueryChange f) (hstub : taint = false → v.newStub = false) :
      Trans h (.inspectState payload) (.inspecting index coroutine stage) v (some .refused)
        ({ (v.mapEpoch index f).wake coroutine with
          waiting := settled stage v.waiting
          lock := false
          tainted := v.tainted || taint }.answer (.inspectState payload)
          (.finishWithError status))
  | inspectDone {payload : Bytes} {v : View} {index : UInt64} {coroutine : Option HandlerId}
      {stage : Stage} {response : Response} {e : EpochType} {q : QueryType}
      (he : v.epochs index = some e) (hq : e.pendingQuery = some q) :
      Trans h (.inspectState payload) (.inspecting index coroutine stage) v
        (some (.inspected coroutine))
        ({ v.mapEpoch index clearQuery with waiting := settled stage v.waiting }.answer
          (.inspectState payload) (.finish response))
  | inspected {payload : Bytes} {v : View} {coroutine : Option HandlerId} :
      Trans h (.inspectState payload) (.inspected coroutine) v none
        { v.wake coroutine with lock := false }
  -- the two ends of a check-in
  | checkIn {address : String} {v : View} {cctx : CheckinContext}
      (hwait : v.waiting = some cctx) :
      Trans h (.checkIn address) .fresh v (some (.checkedIn cctx.coroutine))
        ({ v with waiting := some { cctx with status := some true } }.answer (.checkIn address)
          (.finish .void))
  | checkedIn {address : String} {v : View} {coroutine : HandlerId} :
      Trans h (.checkIn address) (.checkedIn coroutine) v (some (.resuming coroutine)) v
  | deadline {alarm : Nat} {v : View} {cctx : CheckinContext} (hwait : v.waiting = some cctx) :
      Trans h (.checkinDeadline alarm) .fresh v (some (.resuming cctx.coroutine))
        { v with waiting := some { cctx with status := some false } }
  | resumed {rpc : Rpc} {v : View} {coroutine : HandlerId} :
      Trans h rpc (.resuming coroutine) v none v

/-- What a handler has a reference to is gone: the epoch, or the query in it. -/
inductive Lost (v : View) (ph : Phase) : Prop
  | epoch {index : UInt64} (hph : ph.epoch = some index) (he : v.epochs index = none)
  | query {index : UInt64} {e : EpochType} (hph : ph.epoch = some index)
      (hask : ph.asking = true) (he : v.epochs index = some e) (hq : e.pendingQuery = none)

/-- How a segment can take the process down. Of the ends of the process, those
    that depend on the order of the handlers are the second check-in wait of a
    session and the use of an epoch that was erased; nothing is said about the
    others. -/
inductive Crashes (h : HandlerId) (rpc : Rpc) : Phase → View → Halt → Prop
  | start {ph ph' : Phase} {v v' : View} (hs : Starts h rpc ph v ph' v')
      (hwait : v'.waiting ≠ none) : Crashes h rpc ph v .alreadyWaitingCheckin
  | advancing {v : View} {index number : UInt64} {stage : Stage}
      (hwait : settled stage v.waiting ≠ none) :
      Crashes h rpc (.advancing index number stage) v .alreadyWaitingCheckin
  | inspecting {v : View} {index : UInt64} {coroutine : Option HandlerId} {stage : Stage}
      (hwait : settled stage v.waiting ≠ none) :
      Crashes h rpc (.inspecting index coroutine stage) v .alreadyWaitingCheckin
  | lost {ph : Phase} {v : View} (hlost : Lost v ph) : Crashes h rpc ph v .useAfterFree
  | other {ph : Phase} {v : View} {x : Halt} (hx : x ≠ .alreadyWaitingCheckin)
      (hfree : x ≠ .useAfterFree) : Crashes h rpc ph v x

/-- Where a handler of each RPC is parked in each phase. -/
inductive PhaseAt : Rpc → Phase → Op → Prop
  | refused {rpc : Rpc} {status : Status} : PhaseAt rpc .refused (.finishWithError status)
  | reporting {rpc : Rpc} {response : Response} (hrpc : Reports rpc) :
      PhaseAt rpc .reporting (.finish response)
  | storing {request : FinishEpochRequest} {directory : String} :
      PhaseAt (.finishEpoch request) (.storing request.activeEpochIndex) (.call (.store directory))
  | accepted {request : AdvanceStateRequest} {response : Response} :
      PhaseAt (.advanceState request) (.accepted request.activeEpochIndex) (.finish response)
  | advanceSnapshot {request : AdvanceStateRequest} {index number : UInt64} :
      PhaseAt (.advanceState request) (.advancing index number .snapshot) (.call .snapshot)
  | advanceCall {request : AdvanceStateRequest} {index number : UInt64} {c : MachineCall}
      (hc : c ≠ .snapshot) :
      PhaseAt (.advanceState request) (.advancing index number .calling) (.call c)
  | advanceCheckin {request : AdvanceStateRequest} {index number : UInt64} :
      PhaseAt (.advanceState request) (.advancing index number .waiting) .checkin
  | handedOff {request : AdvanceStateRequest} {index : UInt64}
      (hindex : index = request.activeEpochIndex) :
      PhaseAt (.advanceState request) (.handedOff index) .handOff
  | leaving {request : AdvanceStateRequest} :
      PhaseAt (.advanceState request) .leaving .afterTaint
  | queued {payload : Bytes} {index : UInt64} :
      PhaseAt (.inspectState payload) (.queued index) .awaitInputs
  | inspectSnapshot {payload : Bytes} {index : UInt64} {coroutine : Option HandlerId} :
      PhaseAt (.inspectState payload) (.inspecting index coroutine .snapshot) (.call .snapshot)
  | inspectCall {payload : Bytes} {index : UInt64} {coroutine : Option HandlerId}
      {c : MachineCall} (hc : c ≠ .snapshot) :
      PhaseAt (.inspectState payload) (.inspecting index coroutine .calling) (.call c)
  | inspectCheckin {payload : Bytes} {index : UInt64} {coroutine : Option HandlerId} :
      PhaseAt (.inspectState payload) (.inspecting index coroutine .waiting) .checkin
  | inspected {payload : Bytes} {coroutine : Option HandlerId} {response : Response} :
      PhaseAt (.inspectState payload) (.inspected coroutine) (.finish response)
  | checkedIn {address : String} {coroutine : HandlerId} {response : Response} :
      PhaseAt (.checkIn address) (.checkedIn coroutine) (.finish response)
  | resuming {rpc : Rpc} {coroutine : HandlerId} :
      PhaseAt rpc (.resuming coroutine) (.resume coroutine)

/-- The session is there, and it is the one the handlers know. -/
def Live (hctx : HandlerContext) : Prop := ∃ session, hctx.session = some (0, session)

/-- The protocol of the handlers of one session. -/
abbrev sessionProtocol [Keccak] : Protocol handlerSignature Rpc where
  Phase := Phase
  init := .fresh
  Live := Live
  At := PhaseAt
  Step h rpc ph s t s' := Live s' ∧ Trans h rpc ph (View.of s) t (View.of s')
  Halts h rpc ph s _ x := Crashes h rpc ph (View.of s) x
  live_step hstep := hstep.1

end ServerManager
