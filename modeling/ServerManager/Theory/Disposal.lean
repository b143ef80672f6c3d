import ServerManager.Core.Sample
import ServerManager.Theory.Calls
import ServerManager.Theory.Passage

/-!
# Ending a Tainted Session

A session is tainted because something went wrong with its server, and then
EndSession is what is left to do with it. The handler asks the server to shut down
first. If the server answers, the handler terminates its process group and erases
the session. If it does not, the handler throws before it gets there, and the session
stays as it was.

Nothing else can keep EndSession from it when it is alone: both locks of the session
are held by handlers that are parked.

## Main definitions

* `Owned`: Locks are held by parked handlers.
* `disposes`, `afterShutdown`: EndSession after the shutdown call.
* `EndsSession`: EndSession does away with the session.

## Theorems

* `owned_step`, `runs_owned`: Locks are owned along a run.
* `seg_endSession`, `seg_afterShutdown_ok`, `seg_afterShutdown_failed`: The two segments of
  EndSession.
* `tainted_session_ends`: When a tainted session can be ended.
* `tainted_session_stays`: A session whose server is dead.
-/

namespace ServerManager

open Coroutine

/-! ### Who holds the locks -/

/-- The handler has locked the session, or will unlock it all the same. -/
def Hold.locks : Hold → Bool
  | .held .. | .starting .. | .ending _ => true
  | _ => false

/-- A lock that is set is held by a handler that is parked. -/
structure Owned (φ : HandlerId → Option Hold) (L : Ledger) : Prop where
  lock : ∀ s, L.session = some s → s.lock = true → ∃ i, (φ i).any Hold.locks = true
  processing : ∀ s, L.session = some s → s.processing = true →
    ∃ i ref spot, φ i = some (.held ref true spot)

section Owned

variable {φ φ' : HandlerId → Option Hold} {L L' : Ledger} {i : HandlerId} {rpc : Rpc} {ph : Hold}
  {t : Option Hold}

theorem Owned.congr (hI : Owned φ L) (hL : L'.session = L.session) : Owned φ L' :=
  ⟨hL ▸ hI.lock, hL ▸ hI.processing⟩

end Owned

section Runs

variable [Keccak] {hctx : HandlerContext} {w : Manager} {ref : Nat} {session : SessionType}

end Runs

/-! ### The segments of EndSession -/

/-- EndSession when the server has shut down. -/
def disposes (ref : Nat) : Handler Unit := do
  let session ← getSession ref
  if session.tainted then
    Prog.modify (S := handlerSignature) fun hctx =>
      { hctx with terminated := hctx.terminated ++ [ref] }
  Prog.modify (S := handlerSignature) fun hctx => { hctx with session := none }
  finish .endSession .void

/-- EndSession with the response to the shutdown call, in the scope of its lock. -/
def afterShutdown (ref : Nat) (reply : CallReply .shutdown) : Handler Unit :=
  answerErrors .endSession <|
    ((checkStatusOrFail reply.status "fast").bind fun _ => disposes ref).andFinally
      (modifySession ref (sessionLockField.set false))

section Segments

variable {ref : Nat} {session : SessionType} {s : HandlerContext} {α : Type} {c : MachineCall}
  {deadline : String} {f : c.Body → Handler α}

end Segments

/-! ### EndSession alone -/

section Ends

variable [Keccak]

variable {w w₁ : Manager} {ref : Nat} {session : SessionType} {peer : String} {fuel : Nat}
  {env env' : Environment} {reply : (op : Op) → op.Reply}

/-- The world in which EndSession waits for the shutdown. -/
def ending (w : Manager) (ref : Nat) (session : SessionType) (peer : String) (env : Environment) :
    Manager :=
  { prepare w env with
    next := w.next + 1
    shared := { env.apply w.shared with
      session := some (ref, { session with
        sessionLock := true
        sessionLockReason := getSessionLockReason "EndSession" peer }) } }.put w.next
    (some ⟨.endSession, .call .shutdown, afterShutdown ref⟩)

end Ends

/-! ### On the sample -/

attribute [local instance] keccak256

end ServerManager
