import ServerManager.Coroutine.Protocol
import ServerManager.Core.Dispatch
import ServerManager.Theory.Quiet

/-!
# The Ledger of a Session Id

The protocol of all handlers, those that start and end sessions among them, as
far as the session and the check-in entry under one id are concerned. What they
write in the session does not matter here, apart from the two locks. What
matters is who has a reference to which generation of the session, who is
allowed to remove it, and who registers, answers and erases the check-in entry.

A reference can be lost: the session may be gone when a handler is resumed. A
segment that begins like that takes the process down before it ends, so that
every step of the protocol is one with a session; how the process goes down is
described for a segment with a session only.

## Main definitions

* `Ledger`: What matters of a context.
* `Spot`, `Hold`: Where a handler is parked, and which reference it has.
* `LedgerStep`: What a segment can do.
* `LedgerCrash`: How a segment can take the process down.
* `HoldAt`: Where a handler of each RPC is parked.
* `ledgerProtocol`: The protocol.
-/

namespace ServerManager

open Coroutine

/-- The entry of `sessions`: its generation and its locks. -/
structure SessionEntry where
  ref : Nat
  lock : Bool
  processing : Bool

/-- The part of a context that belongs to the id. -/
structure Ledger where
  session : Option SessionEntry
  generation : Nat
  waiting : Option CheckinContext
  alarms : List AlarmState
  ok : Bool

namespace Ledger

def of (hctx : HandlerContext) : Ledger :=
  { session := hctx.session.map fun s => ⟨s.1, s.2.sessionLock, s.2.processingLock⟩
    generation := hctx.generation
    waiting := hctx.waitingCheckin
    alarms := hctx.alarms
    ok := hctx.ok }

/-- A handler registers for a check-in, and its alarm is set. The alarm of an
    entry that was there is destroyed. -/
def register (L : Ledger) (h : HandlerId) : Ledger :=
  { L with
    waiting := some { coroutine := h, alarm := L.alarms.length, status := none }
    alarms := (match L.waiting with
      | some old => cancelAlarm L.alarms old.alarm
      | none => L.alarms) ++ [.running] }

/-- The check-in entry is erased, and its alarm with it. -/
def erase (L : Ledger) : Ledger :=
  { L with
    waiting := none
    alarms := match L.waiting with
      | some cctx => cancelAlarm L.alarms cctx.alarm
      | none => L.alarms }

/-- The status of the check-in entry is set. -/
def mark (L : Ledger) (status : Bool) : Ledger :=
  { L with waiting := L.waiting.map fun cctx => { cctx with status := some status } }

/-- The alarm of the check-in entry is cancelled. -/
def cancel (L : Ledger) : Ledger :=
  { L with
    alarms := match L.waiting with
      | some cctx => cancelAlarm L.alarms cctx.alarm
      | none => L.alarms }

end Ledger

/-- Where in `trigger_and_wait_checkin` a handler is parked: nowhere in it, in
    the trigger, or waiting for the check-in. -/
inductive Spot
  | plain | trigger | waiting
  deriving DecidableEq

/-- Where a handler is parked, and the reference it will use again. -/
inductive Hold
  /-- Not yet run. -/
  | fresh
  /-- With nothing left to do. -/
  | idle
  /-- With a reference, and maybe inside `process_pending_inputs`. -/
  | held (ref : Nat) (processing : Bool) (spot : Spot)
  /-- StartSession after it installed the session. -/
  | starting (ref : Nat) (spot : Spot)
  /-- EndSession in the shutdown call. -/
  | ending (ref : Nat)
  /-- EndSession after it erased the session. -/
  | ended (ref : Nat)
  /-- CheckIn before the acknowledgement. -/
  | checkedIn (coroutine : HandlerId)
  /-- CheckIn or the deadline, resuming the coroutine that waits. -/
  | resuming (coroutine : HandlerId)
  deriving DecidableEq

namespace Hold

def ref : Hold → Option Nat
  | .held ref _ _ | .starting ref _ | .ending ref | .ended ref => some ref
  | _ => none

def spot : Hold → Spot
  | .held _ _ spot | .starting _ spot => spot
  | _ => .plain

end Hold

/-- The ledger after a handler that was parked at a spot has looked at the
    check-in entry, which it erases if it waited for it. -/
def Ledger.settle (L : Ledger) : Spot → Ledger
  | .waiting => L.erase
  | _ => L

/-- A handler that waited for a check-in found the status in the entry. -/
def Marked (spot : Spot) (L : Ledger) : Prop :=
  spot = .waiting → ∃ cctx status, L.waiting = some cctx ∧ cctx.status = some status

theorem marked_plain (L : Ledger) : Marked .plain L := fun hspot => Spot.noConfusion hspot

/-- The RPCs that trigger check-ins. -/
def Triggers : Rpc → Bool
  | .startSession _ | .advanceState _ | .inspectState _ => true
  | _ => false

/-- The RPCs that lock a session and keep a reference to it, without removing
    it. -/
def Borrows : Rpc → Bool
  | .advanceState _ | .inspectState _ | .finishEpoch _ | .deleteEpoch _ | .getSessionStatus
  | .getEpochStatus _ => true
  | _ => false

/-- The end of a handler, or a point at which it has nothing left to do. -/
def Over (t : Option Hold) : Prop := t = none ∨ t = some .idle

/-- What a segment of a handler can do. -/
inductive LedgerStep (h : HandlerId) : Rpc → Hold → Ledger → Option Hold → Ledger → Prop
  -- every RPC
  | rest {rpc : Rpc} {L : Ledger} {t : Option Hold} (ht : Over t) :
      LedgerStep h rpc .fresh L t L
  | idle {rpc : Rpc} {L : Ledger} : LedgerStep h rpc .idle L none L
  -- the RPCs that borrow the session
  | enter {rpc : Rpc} {L : Ledger} {ref : Nat} {processing : Bool} {spot : Spot}
      (hrpc : Borrows rpc) (hs : L.session = some ⟨ref, false, processing⟩)
      (hspot : spot ≠ .waiting) :
      LedgerStep h rpc .fresh L (some (.held ref false spot))
        { L with session := some ⟨ref, true, processing⟩ }
  | work {rpc : Rpc} {L : Ledger} {ref : Nat} {inside inside' lock lock' p p' : Bool}
      {spot spot' : Spot} (hset : Marked spot L) (hs : L.session = some ⟨ref, lock, p⟩)
      (hp : inside' = false → p' = (!inside && p)) (hspot : spot' ≠ .waiting) :
      LedgerStep h rpc (.held ref inside spot) L (some (.held ref inside' spot'))
        { L.settle spot with session := some ⟨ref, lock', p'⟩ }
  | register {rpc : Rpc} {L : Ledger} {ref : Nat} {inside : Bool} :
      LedgerStep h rpc (.held ref inside .trigger) L (some (.held ref inside .waiting))
        (L.register h)
  | leave {rpc : Rpc} {L : Ledger} {ref : Nat} {inside lock p : Bool} {spot : Spot}
      {t : Option Hold} (hset : Marked spot L) (hs : L.session = some ⟨ref, lock, p⟩)
      (ht : Over t) :
      LedgerStep h rpc (.held ref inside spot) L t
        { L.settle spot with session := some ⟨ref, false, !inside && p⟩ }
  -- StartSession
  | install {request : StartSessionRequest} {L : Ledger} (hs : L.session = none)
      (hw : L.waiting = none) :
      LedgerStep h (.startSession request) .fresh L (some (.starting L.generation .waiting))
        ({ L with
          session := some ⟨L.generation, true, false⟩
          generation := L.generation + 1 }.register h)
  | abort {request : StartSessionRequest} {L : Ledger} (hs : L.session = none) :
      LedgerStep h (.startSession request) .fresh L (some .idle)
        { L with generation := L.generation + 1 }
  | check {request : StartSessionRequest} {L : Ledger} {ref : Nat} {spot : Spot}
      (hset : Marked spot L) :
      LedgerStep h (.startSession request) (.starting ref spot) L (some (.starting ref .plain))
        (L.settle spot)
  | fail {request : StartSessionRequest} {L : Ledger} {ref : Nat} {spot : Spot}
      (hset : Marked spot L) :
      LedgerStep h (.startSession request) (.starting ref spot) L (some .idle)
        { L.settle spot with session := none }
  | started {request : StartSessionRequest} {L : Ledger} {ref : Nat} {lock p : Bool}
      (hs : L.session = some ⟨ref, lock, p⟩) :
      LedgerStep h (.startSession request) (.starting ref .plain) L none
        { L with session := some ⟨ref, false, p⟩ }
  -- EndSession
  | shutdown {L : Ledger} {ref : Nat} (hs : L.session = some ⟨ref, false, false⟩) :
      LedgerStep h .endSession .fresh L (some (.ending ref))
        { L with session := some ⟨ref, true, false⟩ }
  | refuse {L : Ledger} {ref : Nat} {lock p : Bool} (hs : L.session = some ⟨ref, lock, p⟩) :
      LedgerStep h .endSession (.ending ref) L (some .idle)
        { L with session := some ⟨ref, false, p⟩ }
  | erase {L : Ledger} {ref : Nat} (hs : L.session.map SessionEntry.ref = some ref) :
      LedgerStep h .endSession (.ending ref) L (some (.ended ref)) { L with session := none }
  | ended {L : Ledger} {ref : Nat} {lock p : Bool} (hs : L.session = some ⟨ref, lock, p⟩) :
      LedgerStep h .endSession (.ended ref) L none { L with session := some ⟨ref, false, p⟩ }
  -- the two ends of a check-in
  | checkIn {address : String} {L : Ledger} {cctx : CheckinContext} (hs : L.session ≠ none)
      (hw : L.waiting = some cctx) :
      LedgerStep h (.checkIn address) .fresh L (some (.checkedIn cctx.coroutine))
        (L.cancel.mark true)
  | checkedIn {address : String} {L : Ledger} {coroutine : HandlerId} :
      LedgerStep h (.checkIn address) (.checkedIn coroutine) L (some (.resuming coroutine)) L
  | deadline {alarm : Nat} {L : Ledger} {cctx : CheckinContext} (hok : L.ok = true)
      (hw : L.waiting = some cctx) :
      LedgerStep h (.checkinDeadline alarm) .fresh L (some (.resuming cctx.coroutine))
        (L.mark false)
  | resumed {rpc : Rpc} {L : Ledger} {coroutine : HandlerId} :
      LedgerStep h rpc (.resuming coroutine) L none L

/-- The ends of the process that have to do neither with check-ins nor with the
    life of the session. -/
def Halt.foreign : Halt → Bool
  | .useAfterFree | .nullStub | .nullCoroutine | .danglingCoroutine | .staleCompletion
  | .uncaughtException => true
  | _ => false

/-- How a segment can take the process down, as far as check-ins are concerned.
    The use of an erased session is not among the ways. -/
inductive LedgerCrash (rpc : Rpc) : Hold → Ledger → Halt → Prop
  | waiting {ph : Hold} {L : Ledger} (hrpc : Triggers rpc)
      (hw : (L.settle ph.spot).waiting ≠ none) : LedgerCrash rpc ph L .alreadyWaitingCheckin
  | erased {ph : Hold} {L : Ledger} (hspot : ph.spot = .waiting) (hw : L.waiting = none) :
      LedgerCrash rpc ph L .checkinContextErased
  | unset {ph : Hold} {L : Ledger} {cctx : CheckinContext} (hspot : ph.spot = .waiting)
      (hw : L.waiting = some cctx) (hstatus : cctx.status = none) :
      LedgerCrash rpc ph L .checkinStatusNotSet
  | notFound {L : Ledger} {alarm : Nat} (hrpc : rpc = .checkinDeadline alarm)
      (hok : L.ok = true) (hw : L.waiting = none) : LedgerCrash rpc .fresh L .deadlineNotFound
  | other {ph : Hold} {L : Ledger} {x : Halt} (hx : x.foreign = true) : LedgerCrash rpc ph L x

/-- The spot of a handler that is parked in a call. -/
def MachineCall.spot (c : MachineCall) : Spot := if c.triggers then .trigger else .plain

/-- Where a handler of each RPC is parked. -/
inductive HoldAt : Rpc → Hold → Op → Prop
  | refused {rpc : Rpc} {status : Status} : HoldAt rpc .idle (.finishWithError status)
  | afterTaint {request : AdvanceStateRequest} : HoldAt (.advanceState request) .idle .afterTaint
  | answered {rpc : Rpc} {ref : Nat} {response : Response} (hrpc : Borrows rpc) :
      HoldAt rpc (.held ref false .plain) (.finish response)
  | advanceCall {request : AdvanceStateRequest} {ref : Nat} {c : MachineCall} :
      HoldAt (.advanceState request) (.held ref true c.spot) (.call c)
  | advanceCheckin {request : AdvanceStateRequest} {ref : Nat} :
      HoldAt (.advanceState request) (.held ref true .waiting) .checkin
  | handOff {request : AdvanceStateRequest} {ref : Nat} :
      HoldAt (.advanceState request) (.held ref true .plain) .handOff
  | awaitInputs {payload : Bytes} {ref : Nat} :
      HoldAt (.inspectState payload) (.held ref false .plain) .awaitInputs
  | inspectCall {payload : Bytes} {ref : Nat} {c : MachineCall} :
      HoldAt (.inspectState payload) (.held ref false c.spot) (.call c)
  | inspectCheckin {payload : Bytes} {ref : Nat} :
      HoldAt (.inspectState payload) (.held ref false .waiting) .checkin
  | calling {rpc : Rpc} {ref : Nat} {c : MachineCall} (hrpc : Borrows rpc)
      (hc : c.triggers = false) : HoldAt rpc (.held ref false .plain) (.call c)
  | startCall {request : StartSessionRequest} {ref : Nat} {c : MachineCall}
      (hc : c.triggers = false) :
      HoldAt (.startSession request) (.starting ref .plain) (.call c)
  | startCheckin {request : StartSessionRequest} {ref : Nat} :
      HoldAt (.startSession request) (.starting ref .waiting) .checkin
  | started {request : StartSessionRequest} {ref : Nat} {response : Response} :
      HoldAt (.startSession request) (.starting ref .plain) (.finish response)
  | shutdown {ref : Nat} : HoldAt .endSession (.ending ref) (.call .shutdown)
  | ended {ref : Nat} {response : Response} : HoldAt .endSession (.ended ref) (.finish response)
  | checkedIn {address : String} {coroutine : HandlerId} {response : Response} :
      HoldAt (.checkIn address) (.checkedIn coroutine) (.finish response)
  | resuming {rpc : Rpc} {coroutine : HandlerId} :
      HoldAt rpc (.resuming coroutine) (.resume coroutine)

/-- The session a handler has a reference to is there. -/
def Borrowed (ph : Hold) (hctx : HandlerContext) : Prop := ∀ ref, ph.ref = some ref → Valid ref hctx

/-- The protocol of all handlers of a session id. -/
abbrev ledgerProtocol : Protocol handlerSignature Rpc where
  Phase := Hold
  init := .fresh
  Live _ := True
  At := HoldAt
  Step h rpc ph s t s' := Borrowed ph s ∧ LedgerStep h rpc ph (Ledger.of s) t (Ledger.of s')
  Halts _ rpc ph s _ x := Borrowed ph s → LedgerCrash rpc ph (Ledger.of s) x
  live_step _ := trivial

end ServerManager
