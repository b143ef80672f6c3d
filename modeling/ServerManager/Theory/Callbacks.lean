import Mathlib
import ServerManager.Coroutine.Protocol
import ServerManager.Core.Dispatch
import ServerManager.Theory.Quiet

/-!
# Who Resumes Whom

The protocol of all handlers, those that start and end sessions among them, as
far as it matters for who is resumed by whom. A suspended handler comes back in
one of three ways: the operation it waits for completes, somebody puts it in the
completion queue, or a check-in resumes it on the spot. The second way is
announced in the queries of the session: the coroutine in a query is the one that
whoever is done with the machine will put in the queue.

A phase says which way a handler waits for, and what it owes to others: an
InspectState at work will put the coroutine it found in its query in the queue.

A handler may only be over in the segment after a check-in if the check-in went
wrong. `Stranded` is that, and it is the one place where the protocol looks into
the epochs.

## Main definitions

* `QueryTable`, `Callbacks`: What matters of a context.
* `Place`, `Post`: Where a handler is parked, and what it owes.
* `Alters`, `Serving`, `Opens`: What a segment does on the way.
* `Stranded`: The check-in went wrong, and no query waits.
* `PostStep`: What a segment can do.
* `PostAt`: Where a handler of each RPC is parked.
* `callbackProtocol`: The protocol.
-/

namespace ServerManager

open Coroutine

/-! ### The queries of a session -/

/-- The entry of `sessions`: its generation, its lock, its active epoch, and the
    coroutine in the query of each epoch that has one. -/
structure QueryTable where
  ref : Nat
  lock : Bool
  active : UInt64
  queries : UInt64 → Option (Option HandlerId)

/-- The coroutine in the query of an epoch, if there is a query. -/
def EpochType.caller (e : EpochType) : Option (Option HandlerId) :=
  e.pendingQuery.map QueryType.coroutine

/-- The coroutines in the queries of a session. -/
def SessionType.callers (session : SessionType) (index : UInt64) : Option (Option HandlerId) :=
  (session.epochs.lookup index).bind EpochType.caller

/-- The part of a context that says who is put in the completion queue. -/
structure Callbacks where
  table : Option QueryTable
  generation : Nat
  queue : List (Option HandlerId)

namespace Callbacks

def of (hctx : HandlerContext) : Callbacks :=
  { table := hctx.session.map fun s => ⟨s.1, s.2.sessionLock, s.2.activeEpochIndex, s.2.callers⟩
    generation := hctx.generation
    queue := hctx.completionQueue }

/-- Put a coroutine in the completion queue, unless the pointer is null. -/
def wake (T : Callbacks) : Option HandlerId → Callbacks
  | some g => { T with queue := T.queue ++ [some g] }
  | none => T

end Callbacks

/-- The same, but for the lock of the session of `ref`. -/
def Relocks (ref : Nat) (T T' : Callbacks) : Prop :=
  T' = T ∨ ∃ d lock, T.table = some d ∧ d.ref = ref ∧
    T' = { T with table := some { d with lock := lock } }

/-! ### Phases -/

/-- Where a handler with a reference is parked. -/
inductive Place
  /-- For a completion. -/
  | busy
  /-- FinishEpoch in the store call. -/
  | storing
  /-- AdvanceState working on an input, whose number in the epoch is `k`: in a
      call, or waiting for a check-in. -/
  | advancing (k : Nat) (waiting : Bool)
  /-- AdvanceState between two inputs, until a query is done. -/
  | handedOff
  /-- InspectState until the inputs let it in. -/
  | queued (index : UInt64)
  /-- InspectState working on its query. -/
  | serving (index : UInt64) (coroutine : Option HandlerId)
  /-- InspectState before the acknowledgement. -/
  | served (coroutine : Option HandlerId)
  deriving DecidableEq

/-- Where a handler is parked. -/
inductive Post
  /-- Not yet run. -/
  | fresh
  /-- With nothing left to do, before the acknowledgement of an error. -/
  | idle
  /-- AdvanceState in a catch clause, until a query is done. -/
  | leaving
  /-- With a reference to a session. -/
  | held (ref : Nat) (place : Place)
  /-- StartSession, in a call or waiting for the check-in. -/
  | starting (ref : Nat) (waiting : Bool)
  /-- CheckIn before the acknowledgement. -/
  | checking
  /-- CheckIn or the deadline, resuming the coroutine that waits. -/
  | resuming (coroutine : HandlerId)
  deriving DecidableEq

namespace Post

/-- The session a handler has a reference to. -/
def ref : Post → Option Nat
  | .held ref _ | .starting ref _ => some ref
  | _ => none

/-- The handler waits to be put in the completion queue. -/
def parked : Post → Bool
  | .leaving | .held _ .handedOff | .held _ (.queued _) => true
  | _ => false

/-- AdvanceState waits to be put in the completion queue. -/
def resting : Post → Bool
  | .leaving | .held _ .handedOff => true
  | _ => false

/-- The coroutine InspectState will put in the completion queue when it is done. -/
def owes : Post → Option HandlerId
  | .held _ (.serving _ coroutine) | .held _ (.served coroutine) => coroutine
  | _ => none

/-- The query of InspectState is in this epoch. -/
def asks : Post → Option (Nat × UInt64)
  | .held ref (.queued index) | .held ref (.serving index _) => some (ref, index)
  | _ => none

end Post

/-- A place of a handler other than InspectState. -/
def Place.plain : Place → Bool
  | .busy | .storing | .advancing .. | .handedOff => true
  | _ => false

/-! ### On the way -/

/-- How a handler other than InspectState begins a segment in which it has a
    reference: it finds the session unlocked, or it had one before. -/
inductive Admitted (ref : Nat) : Post → Callbacks → Prop
  | fresh {T : Callbacks} {d : QueryTable} (hd : T.table = some d) (href : d.ref = ref)
      (hlock : d.lock = false) : Admitted ref .fresh T
  | held {T : Callbacks} {place : Place} (hplain : place.plain) : Admitted ref (.held ref place) T

/-- What such a handler does to the queries of a session. -/
inductive Alters (ref : Nat) : Rpc → Post → Callbacks → Callbacks → Prop
  | relock {rpc : Rpc} {ph : Post} {T T' : Callbacks} (hT : Relocks ref T T') :
      Alters ref rpc ph T T'
  | delete {index : UInt64} {ph : Post} {T : Callbacks} {d : QueryTable} {b : Bool}
      (hd : T.table = some d) (href : d.ref = ref) (hne : d.active ≠ index) :
      Alters ref (.deleteEpoch index) ph T { T with table := some { d with
        lock := b
        queries := Function.update d.queries index none } }
  | advance {request : FinishEpochRequest} {ph : Post} {T : Callbacks} {d : QueryTable}
      {b : Bool} (hd : T.table = some d) (href : d.ref = ref)
      (hph : (ph = .fresh ∧ d.active ≠ 0xFFFFFFFFFFFFFFFF) ∨ ph = .held ref .storing) :
      Alters ref (.finishEpoch request) ph T { T with table := some { d with
        lock := b
        active := d.active + 1
        queries := Function.update d.queries (d.active + 1) none } }
  | erase {ph : Post} {T : Callbacks} : Alters ref .endSession ph T { T with table := none }

/-- What InspectState has done in a segment while its query is in the epoch. The
    coroutine it will put in the completion queue is the one it found in the query
    when it was let in. -/
inductive Serving (ref : Nat) (index : UInt64) (coroutine : Option HandlerId) :
    Post → Callbacks → Callbacks → Prop
  | fresh {T : Callbacks} {d : QueryTable} {lock : Bool} (hd : T.table = some d)
      (href : d.ref = ref) (hlock : d.lock = false) (hactive : d.active = index)
      (hfree : d.queries index = none) (hco : coroutine = none) :
      Serving ref index coroutine .fresh T { T with table := some { d with
        lock := lock
        queries := Function.update d.queries index (some none) } }
  | queued {T T' : Callbacks} {d : QueryTable} (hd : T.table = some d) (href : d.ref = ref)
      (hq : d.queries index = some coroutine) (hT : Relocks ref T T') :
      Serving ref index coroutine (.held ref (.queued index)) T T'
  | serving {T T' : Callbacks} (hT : Relocks ref T T') :
      Serving ref index coroutine (.held ref (.serving index coroutine)) T T'

/-- What StartSession does in a later segment: nothing, or it inserts the first
    epoch. -/
def Opens (ref : Nat) (T T' : Callbacks) : Prop :=
  T' = T ∨ ∃ d index, T.table = some d ∧ d.ref = ref ∧
    T' = { T with table := some { d with queries := Function.update d.queries index none } }

/-! ### Check-ins that go wrong -/

/-- The entry of the check-in says that it failed. -/
def CheckinFailed (s : HandlerContext) : Prop :=
  ∃ cctx, s.waitingCheckin = some cctx ∧ cctx.status = some false

section Stranded

variable [Keccak]

/-- The trees of the epoch take another pristine leaf, and have a proof for it. -/
def EpochType.TakesLeaf (e : EpochType) : Prop :=
  ∀ kind, kind = voucherKind ∨ kind = noticeKind →
    ∃ tree, (kind.tree e).pushBack hasherType zeroHash = .ok tree ∧ ∀ k < 2 ^ 32,
      ∃ proof, tree.getProof (UInt64.ofNat k <<< UInt64.ofNat log2KeccakSize) log2KeccakSize =
        .ok proof

/-- AdvanceState cannot go on after a check-in: it failed, or it is that of a
    rollback and the epoch is full. -/
inductive Spoiled (ref : Nat) (index : UInt64) (k : Nat) (s : HandlerContext) : Prop
  | failed (hfailed : CheckinFailed s)
  | number (hk : 2 ^ 32 ≤ k)
  | full {session : SessionType} {e : EpochType} (hs : s.session = some (ref, session))
      (he : session.epochs.lookup index = some e) (hfull : ¬ e.TakesLeaf)

/-- And there is no query to hand the machine over to. -/
structure Stranded (ref : Nat) (index : UInt64) (k : Nat) (s : HandlerContext) : Prop where
  spoiled : Spoiled ref index k s
  alone : ∃ d, (Callbacks.of s).table = some d ∧ d.ref = ref ∧ d.queries d.active = none

end Stranded

/-- The number of the input AdvanceState begins to work on is that of the inputs
    processed before. -/
def Numbers (ref : Nat) (index : UInt64) (k : Nat) (s : HandlerContext) : Prop :=
  ∃ session e, s.session = some (ref, session) ∧ session.epochs.lookup index = some e ∧
    e.processedInputs.length = k

/-- AdvanceState works on inputs, or is about to: past its acknowledgement its input
    is the only one that waits, or somebody else has unlocked the session. -/
structure Works (request : AdvanceStateRequest) (ref : Nat) (ph : Post) (s : HandlerContext) :
    Prop where
  arrived : ph ≠ .fresh
  first : ph = .held ref .busy → ∀ session, s.session = some (ref, session) →
    session.sessionLock = false ∨ ∃ e, session.epochs.lookup request.activeEpochIndex = some e ∧
      e.pendingInputs.length = 1

/-! ### Segments -/

/-- What a segment of a handler can do: from where it was parked, to where it parks
    next or to its end. -/
inductive PostStep [Keccak] (h : HandlerId) :
    Rpc → Post → HandlerContext → Option Post → HandlerContext → Prop
  -- every RPC
  | rest {rpc : Rpc} {s s' : HandlerContext} {t : Option Post} (ht : t = none ∨ t = some .idle)
      (hT : Callbacks.of s' = Callbacks.of s) : PostStep h rpc .fresh s t s'
  | idle {rpc : Rpc} {s s' : HandlerContext} (hT : Callbacks.of s' = Callbacks.of s) :
      PostStep h rpc .idle s none s'
  | left {rpc : Rpc} {s s' : HandlerContext} (hT : Callbacks.of s' = Callbacks.of s) :
      PostStep h rpc .leaving s none s'
  -- with a reference to the session
  | work {rpc : Rpc} {ref : Nat} {place : Place} {ph : Post} {s s' : HandlerContext}
      (hin : Admitted ref ph (Callbacks.of s))
      (hT : Alters ref rpc ph (Callbacks.of s) (Callbacks.of s'))
      (hplace : place = .busy ∨ place = .storing) :
      PostStep h rpc ph s (some (.held ref place)) s'
  | advance {request : AdvanceStateRequest} {ref k : Nat} {waiting : Bool} {ph : Post}
      {s s' : HandlerContext} (hin : Admitted ref ph (Callbacks.of s))
      (hT : Relocks ref (Callbacks.of s) (Callbacks.of s'))
      (hk : (∃ waited, ph = .held ref (.advancing k waited)) ∨
        Numbers ref request.activeEpochIndex k s') :
      PostStep h (.advanceState request) ph s (some (.held ref (.advancing k waiting))) s'
  | leave {rpc : Rpc} {ref : Nat} {ph : Post} {s s' : HandlerContext} {t : Option Post}
      (hin : Admitted ref ph (Callbacks.of s))
      (hT : Alters ref rpc ph (Callbacks.of s) (Callbacks.of s'))
      (ht : t = none ∨ t = some .idle)
      (hend : ∀ request k, rpc = .advanceState request → ph = .held ref (.advancing k true) →
        t = none → Stranded ref request.activeEpochIndex k s) : PostStep h rpc ph s t s'
  -- AdvanceState
  | handOver {request : AdvanceStateRequest} {ref : Nat} {ph ph' : Post} {s s' : HandlerContext}
      {d : QueryTable} {index : UInt64} {coroutine : Option HandlerId} {b : Bool}
      (hin : Admitted ref ph (Callbacks.of s)) (hworks : Works request ref ph s)
      (hd : (Callbacks.of s).table = some d) (href : d.ref = ref)
      (hindex : index = request.activeEpochIndex ∨ index = d.active)
      (hq : d.queries index = some coroutine)
      (hph' : ph' = .held ref .handedOff ∨ ph' = .leaving)
      (hT : Callbacks.of s' = { Callbacks.of s with
        table := some { d with
          lock := b
          queries := Function.update d.queries index (some (some h)) }
        queue := (Callbacks.of s).queue ++ [coroutine] }) :
      PostStep h (.advanceState request) ph s (some ph') s'
  -- InspectState
  | line {payload : Bytes} {ref : Nat} {index : UInt64} {s s' : HandlerContext} {d : QueryTable}
      {lock : Bool} (hd : (Callbacks.of s).table = some d) (href : d.ref = ref)
      (hlock : d.lock = false) (hactive : d.active = index) (hfree : d.queries index = none)
      (hT : Callbacks.of s' = { Callbacks.of s with table := some { d with
        lock := lock
        queries := Function.update d.queries index (some (some h)) } }) :
      PostStep h (.inspectState payload) .fresh s (some (.held ref (.queued index))) s'
  | serve {payload : Bytes} {ref : Nat} {index : UInt64} {coroutine : Option HandlerId}
      {ph : Post} {s s' : HandlerContext}
      (hT : Serving ref index coroutine ph (Callbacks.of s) (Callbacks.of s')) :
      PostStep h (.inspectState payload) ph s (some (.held ref (.serving index coroutine))) s'
  | answer {payload : Bytes} {ref : Nat} {index : UInt64} {coroutine : Option HandlerId}
      {ph : Post} {s s' : HandlerContext} {T : Callbacks} {d : QueryTable}
      (hs : Serving ref index coroutine ph (Callbacks.of s) T) (hd : T.table = some d)
      (href : d.ref = ref) (hT : Callbacks.of s' = { T with table := some { d with
        queries := Function.update d.queries index none } }) :
      PostStep h (.inspectState payload) ph s (some (.held ref (.served coroutine))) s'
  | fail {payload : Bytes} {ref : Nat} {index : UInt64} {coroutine : Option HandlerId}
      {ph : Post} {s s' : HandlerContext} {T : Callbacks}
      (hs : Serving ref index coroutine ph (Callbacks.of s) T)
      (hT : Relocks ref (T.wake coroutine) (Callbacks.of s')) :
      PostStep h (.inspectState payload) ph s (some .idle) s'
  | answered {payload : Bytes} {ref : Nat} {coroutine : Option HandlerId} {s s' : HandlerContext}
      (hT : Relocks ref ((Callbacks.of s).wake coroutine) (Callbacks.of s')) :
      PostStep h (.inspectState payload) (.held ref (.served coroutine)) s none s'
  -- StartSession
  | install {request : StartSessionRequest} {s s' : HandlerContext} {ref : Nat} {active : UInt64}
      (href : ref = s.generation) (hnone : (Callbacks.of s).table = none)
      (hT : Callbacks.of s' = { Callbacks.of s with
        table := some ⟨ref, true, active, fun _ => none⟩
        generation := ref + 1 }) :
      PostStep h (.startSession request) .fresh s (some (.starting ref true)) s'
  | abort {request : StartSessionRequest} {s s' : HandlerContext}
      (hnone : (Callbacks.of s).table = none)
      (hT : Callbacks.of s' = { Callbacks.of s with generation := s.generation + 1 }) :
      PostStep h (.startSession request) .fresh s (some .idle) s'
  | check {request : StartSessionRequest} {ref : Nat} {waiting : Bool} {s s' : HandlerContext}
      (hT : Opens ref (Callbacks.of s) (Callbacks.of s')) :
      PostStep h (.startSession request) (.starting ref waiting) s (some (.starting ref false)) s'
  | close {request : StartSessionRequest} {ref : Nat} {waiting : Bool} {s s' : HandlerContext}
      (hT : Callbacks.of s' = { Callbacks.of s with table := none }) :
      PostStep h (.startSession request) (.starting ref waiting) s (some .idle) s'
  | started {request : StartSessionRequest} {ref : Nat} {s s' : HandlerContext}
      (hT : Relocks ref (Callbacks.of s) (Callbacks.of s')) :
      PostStep h (.startSession request) (.starting ref false) s none s'
  -- the two ends of a check-in
  | checkIn {address : String} {s s' : HandlerContext} (hT : Callbacks.of s' = Callbacks.of s) :
      PostStep h (.checkIn address) .fresh s (some .checking) s'
  | resume {rpc : Rpc} {ph : Post} {g : HandlerId} {s s' : HandlerContext}
      (hend : (∃ address, rpc = .checkIn address ∧ ph = .checking ∧
          s'.waitingCheckin = s.waitingCheckin) ∨
        ∃ alarm, rpc = .checkinDeadline alarm ∧ ph = .fresh)
      (hs : s'.session = s.session) (hT : Callbacks.of s' = Callbacks.of s) :
      PostStep h rpc ph s (some (.resuming g)) s'
  | resumed {rpc : Rpc} {g : HandlerId} {s : HandlerContext} :
      PostStep h rpc (.resuming g) s none s

/-- Where a handler of each RPC is parked. -/
inductive PostAt : Rpc → Post → Op → Prop
  | refused {rpc : Rpc} {status : Status} : PostAt rpc .idle (.finishWithError status)
  | afterTaint {request : AdvanceStateRequest} : PostAt (.advanceState request) .leaving .afterTaint
  | calling {rpc : Rpc} {ref : Nat} {c : MachineCall} : PostAt rpc (.held ref .busy) (.call c)
  | answered {rpc : Rpc} {ref : Nat} {response : Response} :
      PostAt rpc (.held ref .busy) (.finish response)
  | storing {request : FinishEpochRequest} {ref : Nat} {c : MachineCall} :
      PostAt (.finishEpoch request) (.held ref .storing) (.call c)
  | advanceCall {request : AdvanceStateRequest} {ref k : Nat} {c : MachineCall} :
      PostAt (.advanceState request) (.held ref (.advancing k false)) (.call c)
  | advanceCheckin {request : AdvanceStateRequest} {ref k : Nat} :
      PostAt (.advanceState request) (.held ref (.advancing k true)) .checkin
  | handedOff {request : AdvanceStateRequest} {ref : Nat} :
      PostAt (.advanceState request) (.held ref .handedOff) .handOff
  | queued {payload : Bytes} {ref : Nat} {index : UInt64} :
      PostAt (.inspectState payload) (.held ref (.queued index)) .awaitInputs
  | inspectCall {payload : Bytes} {ref : Nat} {index : UInt64} {coroutine : Option HandlerId}
      {c : MachineCall} : PostAt (.inspectState payload) (.held ref (.serving index coroutine)) (.call c)
  | inspectCheckin {payload : Bytes} {ref : Nat} {index : UInt64} {coroutine : Option HandlerId} :
      PostAt (.inspectState payload) (.held ref (.serving index coroutine)) .checkin
  | served {payload : Bytes} {ref : Nat} {coroutine : Option HandlerId} {response : Response} :
      PostAt (.inspectState payload) (.held ref (.served coroutine)) (.finish response)
  | startCall {request : StartSessionRequest} {ref : Nat} {c : MachineCall} :
      PostAt (.startSession request) (.starting ref false) (.call c)
  | startCheckin {request : StartSessionRequest} {ref : Nat} :
      PostAt (.startSession request) (.starting ref true) .checkin
  | started {request : StartSessionRequest} {ref : Nat} {response : Response} :
      PostAt (.startSession request) (.starting ref false) (.finish response)
  | checking {address : String} {response : Response} :
      PostAt (.checkIn address) .checking (.finish response)
  | resuming {rpc : Rpc} {g : HandlerId} : PostAt rpc (.resuming g) (.resume g)

/-- The protocol of all handlers of a session id. Nothing is said about how the
    process ends. -/
abbrev callbackProtocol [Keccak] : Protocol handlerSignature Rpc where
  Phase := Post
  init := .fresh
  Live _ := True
  At := PostAt
  Step := PostStep
  Halts _ _ _ _ _ _ := True
  live_step _ := trivial

end ServerManager
