import ServerManager.Coroutine.World
import ServerManager.Core.StartSession

/-!
# The Dispatch Loop

The loop in `main`: take an event from the completion queue and resume the
coroutine it belongs to. What the loop does not decide is which event comes
next, so a step takes the event as an argument, and a run is any list of them.

A request can arrive at any time, because every handler starts to accept the
next request of its kind before it looks at its own. The completion of a call
or of an answer arrives at any time after it was started, with any status and
contents. A coroutine put in the queue with `enqueue_completion_queue` comes
out at any time, ahead of or behind anything else. A check-in alarm fires at
any time while it is running, and its event comes out at any time after that or
after it was cancelled.

## Main definitions

* `Manager`: The world of the manager's coroutines for one session id.
* `handlerOf`: The program of each kind of coroutine.
* `Environment`: What the environment decides before each resume.
* `Event`: What can come out of the completion queue.
* `step`: One round of the dispatch loop.
* `Blank`: A context before the first session.
* `FreshSession`: A context whose session was just started.
* `idle`: A world without any coroutine.
-/

namespace ServerManager

open Coroutine

variable [Keccak]

/-- The coroutines of the manager for one session id. -/
abbrev Manager := World handlerSignature Rpc

/-- The program of a coroutine, from the moment its request was received or its
    alarm came out of the queue. -/
def handlerOf (fuel : Nat) (peer : String) (rpc : Rpc) (self : HandlerId) : Handler Unit :=
  match rpc with
  | .startSession request => newStartSessionHandler self peer request
  | .advanceState request => newAdvanceStateHandler fuel self peer request
  | .inspectState payload => newInspectStateHandler fuel self peer payload
  | .finishEpoch request => newFinishEpochHandler peer request
  | .deleteEpoch epochIndex => newDeleteEpochHandler peer epochIndex
  | .endSession => newEndSessionHandler peer
  | .getSessionStatus => newGetSessionStatusHandler peer
  | .getEpochStatus epochIndex => newGetEpochStatusHandler peer epochIndex
  | .checkIn address => newCheckinHandler address
  | .checkinDeadline _ => checkinDeadlineResumed

/-- What the environment decides before a coroutine is resumed. -/
structure Environment where
  ok : Bool
  now : Int
  newStub : Bool
  spawnError : Option String

/-- The context with the decisions of the environment in it. -/
def Environment.apply (env : Environment) (hctx : HandlerContext) : HandlerContext :=
  { hctx with
    ok := env.ok
    now := env.now
    newStub := env.newStub
    spawnError := env.spawnError }

/-- Events of the completion queue. The reply of a completion is given for
    every operation, and the one the handler waits for is used. -/
inductive Event
  | arrive (rpc : Rpc) (peer : String) (fuel : Nat) (env : Environment)
  | complete (h : HandlerId) (reply : (op : Op) → op.Reply) (env : Environment)
  | dequeue (i : Nat) (env : Environment)
  | fire (alarm : Nat)
  | alarm (i : Nat) (env : Environment)
  | completeStale (i : Nat)

/-- The world in which the environment has decided. -/
def prepare (w : Manager) (env : Environment) : Manager :=
  { w with shared := env.apply w.shared }

/-- Change the state of an alarm. -/
def setAlarm (w : Manager) (i : Nat) (a : AlarmState) : Manager :=
  { w with shared := { w.shared with alarms := w.shared.alarms.set i a } }

/-- One round of the dispatch loop, if the event is possible. -/
def step (w : Manager) (event : Event) : Option Manager :=
  if w.halted.isSome then none
  else match event with
    | .arrive (.checkinDeadline _) _ _ _ => none
    | .arrive rpc peer fuel env => (prepare w env).start rpc (handlerOf fuel peer rpc)
    | .complete h reply env =>
      match w.handlers h with
      | none => none
      | some p => if Op.completes p.op then (prepare w env).resume h reply else none
    | .dequeue i env =>
      match w.shared.completionQueue[i]? with
      | none => none
      | some tag =>
        let queue := w.shared.completionQueue.eraseIdx i
        let w := { w with shared := { w.shared with completionQueue := queue } }
        match tag with
        | none => some { w with halted := some .nullCoroutine }
        | some h => (prepare w env).resumeBlank h
    | .fire i => if w.shared.alarms[i]? = some .running then some (setAlarm w i .fired) else none
    | .alarm i env =>
      match w.shared.alarms[i]? with
      | some .fired =>
        (prepare (setAlarm w i .delivered) { env with ok := true }).start (.checkinDeadline i)
          (handlerOf 0 "" (.checkinDeadline i))
      | some .cancelled =>
        (prepare (setAlarm w i .delivered) { env with ok := false }).start (.checkinDeadline i)
          (handlerOf 0 "" (.checkinDeadline i))
      | _ => none
    | .completeStale i =>
      match w.stale[i]? with
      | none => none
      | some _ => some { w with halted := some .staleCompletion }

/-- The world of a context in which no coroutine is in flight. -/
def idle (hctx : HandlerContext) : Manager :=
  { shared := hctx, handlers := fun _ => none, next := 0, stale := [], halted := none }

/-- The manager as it starts: there is no session, and nobody is in the completion
    queue. -/
structure Blank (hctx : HandlerContext) : Prop where
  session : hctx.session = none
  queue : hctx.completionQueue = []

/-- A session as StartSession leaves it: unlocked and untainted, with one
    active epoch that has seen no input and no query. -/
structure FreshSession (hctx : HandlerContext) (session : SessionType) : Prop where
  entry : hctx.session = some (0, session)
  waiting : hctx.waitingCheckin = none
  queue : hctx.completionQueue = []
  alarms : hctx.alarms = []
  sent : hctx.sent = []
  unlocked : session.sessionLock = false
  unprocessed : session.processingLock = false
  untainted : session.tainted = false
  epochs : ∃ e : EpochType, session.epochs = AList.singleton session.activeEpochIndex e ∧
    e.epochIndex = session.activeEpochIndex ∧ e.state = .active ∧ e.processedInputs = [] ∧
    e.pendingInputs = [] ∧ e.pendingQuery = none ∧
    e.vouchersTree = .empty hasherType log2RootSize log2KeccakSize log2KeccakSize ∧
    e.noticesTree = .empty hasherType log2RootSize log2KeccakSize log2KeccakSize

end ServerManager
