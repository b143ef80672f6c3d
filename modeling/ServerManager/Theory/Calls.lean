import ServerManager.Coroutine.History
import ServerManager.Core.Process

/-!
# Traces of Calls

A call to the machine server whose failure taints the session, as it shows in
the trace of a handler: the handler is parked on the call, the reply comes, and
either the handler goes on with the body of the response or it throws. A
handler whose session or connection is gone does not get as far as the call.

## Main definitions

* `Connected`: The session of a reference is there, with a connection.
* `afterCall`: What a handler does with the reply of such a call.

## Theorems

* `seg_getSession`, `seg_modifySession`, `seg_getEpoch`, `seg_modifyEpoch`: Reading
  and writing the session is not the end of a segment.
* `seg_callOrTaint`, `seg_connected`: The segment up to a call.
* `trace_callOrTaint`: The trace of a call and of what follows it.
* `obeys_getSession`, `obeys_modifySession`, `obeys_getEpoch`, `obeys_modifyEpoch`,
  `obeys_callOrTaint`: The rules for contracts.
* `meets_getSession` and its siblings: The same without a history.
-/

namespace ServerManager

open Coroutine

variable {α : Type} {c : MachineCall} {ref : Nat} {deadline : String}

/-- The session of a reference is there, with a connection to its server. -/
def Connected (ref : Nat) (s : HandlerContext) : Prop :=
  ∃ session, s.session = some (ref, session) ∧ session.serverStub = true

/-- What a handler does with the reply of a call whose failure taints the
    session. -/
def afterCall (ref : Nat) (deadline : String) (f : c.Body → Handler α) (reply : CallReply c) :
    Handler α :=
  (checkStatusOrTaint ref reply.status deadline).bind fun _ => f reply.body

/-- Reading the session takes no exchange. -/
theorem seg_getSession {f : SessionType → Handler α} {s : HandlerContext} {session : SessionType}
    (hs : s.session = some (ref, session)) :
    (getSession ref >>= f).seg s = (f session).seg s := by
  simp only [getSession, Prog.bind_eq, Prog.seg_bind, Prog.seg, hs, if_true, Landing.andThen]

/-- With a connection, the call is made. -/
theorem seg_connected {f : c.Body → Handler α} {s : HandlerContext} (hs : Connected ref s) :
    ((callOrTaint ref c deadline).bind f).seg s =
      (.parked (.call c) (afterCall ref deadline f), s) := by
  rcases hs with ⟨session, hsession, hstub⟩
  simp only [callOrTaint, call, getSession, Prog.bind_eq, Prog.bind_assoc, Prog.seg_bind, Prog.seg,
    hsession, if_true, Landing.andThen, hstub]
  rfl

/-- Without one, the process ends. -/
theorem seg_callOrTaint (f : c.Body → Handler α) (s : HandlerContext) :
    ((callOrTaint ref c deadline).bind f).seg s =
        (.parked (.call c) (afterCall ref deadline f), s) ∨
      ∃ x, ((callOrTaint ref c deadline).bind f).seg s = (.halted x, s) := by
  by_cases hs : Connected ref s
  · exact Or.inl (seg_connected hs)
  · refine Or.inr ?_
    simp only [callOrTaint, call, getSession, Prog.bind_eq, Prog.bind_assoc, Prog.seg_bind,
      Prog.seg]
    split
    · rename_i generation session hsession
      by_cases href : generation = ref
      · subst href
        by_cases hstub : session.serverStub = true
        · exact absurd ⟨session, hsession, hstub⟩ hs
        · exact ⟨.nullStub, by simp [Prog.seg, Prog.bind, Landing.andThen, hstub]⟩
      · exact ⟨.sessionErased, by simp [Prog.seg, Landing.andThen, href]⟩
    · exact ⟨.sessionErased, rfl⟩

/-- A reply with a good status is followed by the rest. -/
theorem afterCall_ok {f : c.Body → Handler α} {reply : CallReply c}
    (hok : reply.status.isOk = true) : afterCall ref deadline f reply = f reply.body := by
  rw [afterCall, checkStatusOrTaint, if_pos hok]
  rfl

/-- Any other taints the session. -/
theorem afterCall_failed {f : c.Body → Handler α} {reply : CallReply c}
    (hfailed : reply.status.isOk = false) : afterCall ref deadline f reply =
      .throw (.taintSession ref (contactError reply.status deadline)) := by
  rw [afterCall, checkStatusOrTaint, hfailed]
  rfl

/-- A call needs the session and a connection. -/
theorem callOrTaint_bind (f : c.Body → Handler α) :
    (callOrTaint ref c deadline >>= f) = (getSession ref >>= fun session =>
      if session.serverStub then .yield (.call c) (afterCall ref deadline f)
      else .halt .nullStub) := by
  simp only [callOrTaint, call, Prog.bind_eq, Prog.bind_assoc]
  congr 1
  funext session
  split <;> rfl

/-- Reading the context takes no exchange. -/
theorem trace_getContext {f : HandlerContext → Handler α} {s : HandlerContext}
    {es : List (Exchange handlerSignature)} {l : Landing handlerSignature α} {s' : HandlerContext} :
    (getContext >>= f).Trace s es l s' ↔ (f s).Trace s es l s' := by
  have hseg : (getContext >>= f).seg s = (f s).seg s := rfl
  exact Prog.trace_congr hseg

/-- The trace of a call and of what follows it: the call is made or the process
    ends, and then there is a reply. -/
theorem trace_callOrTaint {f : c.Body → Handler α} {s : HandlerContext}
    {es : List (Exchange handlerSignature)} {l : Landing handlerSignature α} {s' : HandlerContext}
    (htrace : ((callOrTaint ref c deadline).bind f).Trace s es l s') :
    (es = [] ∧ s' = s ∧ (l = .parked (.call c) (afterCall ref deadline f) ∨
      ∃ x, l = .halted x ∧ ¬ Connected ref s)) ∨
      ∃ reply s₂ rest, es = ⟨.call c, reply, s₂⟩ :: rest ∧
        (afterCall ref deadline f reply).Trace s₂ rest l s' := by
  cases es with
  | nil =>
      refine Or.inl ⟨rfl, ?_⟩
      have hseg : ((callOrTaint ref c deadline).bind f).seg s = (l, s') := htrace
      by_cases hs : Connected ref s
      · rw [seg_connected hs] at hseg
        cases hseg
        exact ⟨rfl, Or.inl rfl⟩
      · rcases seg_callOrTaint f s with hcall | ⟨x, hhalt⟩
        · rw [hcall] at hseg
          cases hseg
          exact ⟨rfl, Or.inl rfl⟩
        · rw [hhalt] at hseg
          cases hseg
          exact ⟨rfl, Or.inr ⟨x, rfl, hs⟩⟩
  | cons e rest =>
      rcases htrace with ⟨k, s₁, hseg, hrest⟩
      rcases seg_callOrTaint f s with hcall | ⟨x, hhalt⟩
      · rw [hcall] at hseg
        rcases e with ⟨op, reply, s₂⟩
        cases hseg
        exact Or.inr ⟨reply, s₂, rest, rfl, hrest⟩
      · rw [hhalt] at hseg
        cases hseg

section Obeys

variable {rely : List (Exchange handlerSignature) → HandlerContext → Exchange handlerSignature → Prop}
variable {asks : List (Exchange handlerSignature) → HandlerContext → (op : Op) →
  (Op.Reply op → Handler α) → Prop}
variable {Q : List (Exchange handlerSignature) → α → HandlerContext → Prop}
variable {E : List (Exchange handlerSignature) → Exn → HandlerContext → Prop}
variable {h : List (Exchange handlerSignature)} {s : HandlerContext} {index : UInt64}

/-- What follows the reading of the session happens while it is there. -/
theorem obeys_getSession {f : SessionType → Handler α}
    (hf : ∀ session, s.session = some (ref, session) → (f session).Obeys rely asks Q E h s) :
    (getSession ref >>= f).Obeys rely asks Q E h s := by
  simp only [getSession, Prog.bind_eq, Prog.bind, Prog.Obeys]
  split
  · next generation session hs =>
      split
      · next heq =>
          subst heq
          exact hf session hs
      · trivial
  · trivial

/-- What follows a write of the session happens after it. -/
theorem obeys_modifySession {g : SessionType → SessionType} {f : Unit → Handler α}
    (hf : ∀ session, s.session = some (ref, session) →
      (f ()).Obeys rely asks Q E h { s with session := some (ref, g session) }) :
    (modifySession ref g >>= f).Obeys rely asks Q E h s := by
  simp only [modifySession, Prog.bind_eq, Prog.bind, Prog.Obeys]
  split
  · next generation session hs =>
      split
      · next heq =>
          subst heq
          exact hf session hs
      · trivial
  · trivial

/-- The same for an epoch of the session. -/
theorem obeys_getEpoch {f : EpochType → Handler α}
    (hf : ∀ session e, s.session = some (ref, session) → session.epochs.lookup index = some e →
      (f e).Obeys rely asks Q E h s) :
    (getEpoch ref index >>= f).Obeys rely asks Q E h s := by
  rw [getEpoch, Prog.bind_eq, Prog.bind_eq, Prog.bind_assoc]
  refine obeys_getSession (fun session hs => ?_)
  split
  · next e he => exact hf session e hs he
  · trivial

/-- What follows a write of an epoch happens after it. -/
theorem obeys_modifyEpoch {g : EpochType → EpochType} {f : Unit → Handler α}
    (hf : ∀ session e, s.session = some (ref, session) → session.epochs.lookup index = some e →
      (f ()).Obeys rely asks Q E h { s with
        session := some (ref, { session with epochs := session.epochs.insert index (g e) }) }) :
    (modifyEpoch ref index g >>= f).Obeys rely asks Q E h s := by
  rw [modifyEpoch, Prog.bind_eq, Prog.bind_eq, Prog.bind_assoc]
  refine obeys_getEpoch (fun session e hs he => ?_)
  refine obeys_modifySession (fun session' hs' => ?_)
  rw [hs] at hs'
  cases hs'
  exact hf session e hs he

/-- A call is allowed, what follows a good reply keeps to the contract, and a
    bad reply may taint the session. -/
theorem obeys_callOrTaint {f : c.Body → Handler α}
    (hasks : asks h s (.call c) (afterCall ref deadline f))
    (hf : ∀ reply : CallReply c, ∀ s', rely h s ⟨.call c, reply, s'⟩ → reply.status.isOk = true →
      (f reply.body).Obeys rely asks Q E (h ++ [⟨.call c, reply, s'⟩]) s')
    (hE : ∀ status e, rely h s e → E (h ++ [e]) (.taintSession ref status) e.state) :
    (callOrTaint ref c deadline >>= f).Obeys rely asks Q E h s := by
  rw [callOrTaint_bind]
  refine obeys_getSession (fun session _ => ?_)
  split
  · refine ⟨hasks, fun reply s' hs' => ?_⟩
    by_cases hok : (show CallReply c from reply).status.isOk = true
    · rw [afterCall_ok hok]
      exact hf reply s' hs' hok
    · rw [afterCall_failed (Bool.eq_false_iff.mpr hok)]
      exact hE _ _ hs'
  · trivial

end Obeys

section Meets

variable {rely : HandlerContext → Prop}
variable {asks : HandlerContext → (op : Op) → (Op.Reply op → Handler α) → Prop}
variable {Q : α → HandlerContext → Prop} {E : Exn → HandlerContext → Prop} {s : HandlerContext}
variable {index : UInt64}

theorem meets_getSession {f : SessionType → Handler α}
    (hf : ∀ session, s.session = some (ref, session) → (f session).Meets rely asks Q E s) :
    (getSession ref >>= f).Meets rely asks Q E s :=
  (Prog.meets_iff_obeys []).mpr (obeys_getSession fun session hs =>
    (Prog.meets_iff_obeys []).mp (hf session hs))

theorem meets_getContext {f : HandlerContext → Handler α} (hf : (f s).Meets rely asks Q E s) :
    (getContext >>= f).Meets rely asks Q E s := hf

theorem meets_modifySession {g : SessionType → SessionType} {f : Unit → Handler α}
    (hf : ∀ session, s.session = some (ref, session) →
      (f ()).Meets rely asks Q E { s with session := some (ref, g session) }) :
    (modifySession ref g >>= f).Meets rely asks Q E s :=
  (Prog.meets_iff_obeys []).mpr (obeys_modifySession fun session hs =>
    (Prog.meets_iff_obeys []).mp (hf session hs))

theorem meets_callOrTaint {f : c.Body → Handler α}
    (hasks : asks s (.call c) (afterCall ref deadline f))
    (hf : ∀ body s', rely s' → (f body).Meets rely asks Q E s')
    (hE : ∀ status s', rely s' → E (.taintSession ref status) s') :
    (callOrTaint ref c deadline >>= f).Meets rely asks Q E s :=
  (Prog.meets_iff_obeys []).mpr (obeys_callOrTaint hasks
    (fun reply s' hs' _ => (Prog.meets_iff_obeys _).mp (hf reply.body s' hs'))
    fun status e he => hE status e.state he)

end Meets

end ServerManager
