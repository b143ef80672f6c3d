import ServerManager.Theory.Transactions

/-!
# Scopes and Clauses

What the handlers have around their own work: the test of the `ok` flag, the
lookup of the session, the scope of a lock, the checks that refuse a request,
and the catch clauses. Each rule takes what the parts inside must establish and
says what the whole does, so that the proof of a handler follows its text.

A scope changes the view when it is left, whether normally or by an exception.
`Released` is the postcondition the body needs for that.

## Main definitions

* `Released`: A postcondition seen from inside a scope.

## Theorems

* `sat_autoLock`, `sat_withSessionLock`: Lock scopes.
* `sat_findSession`, `sat_checkTainted`, `sat_checkEpochOverflow`: Checks.
* `sat_onArrival`, `sat_answerErrors`: The outermost parts.
* `sat_refused`: The end of a handler that answers with an error.
-/

namespace ServerManager

open Coroutine

variable [Keccak] {h : HandlerId} {rpc : Rpc} {ph : Phase} {s₀ s : HandlerContext}
variable {session : SessionType} {α : Type}
variable {E : Exn → Phase → HandlerContext → HandlerContext → Prop}

/-- A postcondition that must still hold after the view changed by `g`, which
    is what the end of a scope does. -/
def Released (g : View → View) (Q : α → Phase → HandlerContext → HandlerContext → Prop) (a : α)
    (ph : Phase) (s₀ s : HandlerContext) : Prop :=
  Live s ∧ ∀ s', Live s' → View.of s' = g (View.of s) → Q a ph s₀ s'

/-- The scope of a lock that is free: the body runs with the lock set, and its
    postconditions are met once the lock is cleared. -/
theorem sat_autoLock {Q : α → Phase → HandlerContext → HandlerContext → Prop} {lock : LockField}
    {name : String} {body : Handler α} (setView : Bool → View → View)
    (hset : ∀ b (v : View) session,
      v.withSession (lock.set b session) = setView b (v.withSession session))
    (hs : s.session = some (0, session)) (hfree : lock.get session = false)
    (hbody : ∀ s', Live s' → View.of s' = setView true (View.of s) →
      Prog.Sat sessionProtocol h rpc (Released (setView false) Q) (Released (setView false) E)
        body ph s₀ s') :
    Prog.Sat sessionProtocol h rpc Q E (autoLock lock 0 name body) ph s₀ s := by
  have hend : ∀ {Q : Phase → HandlerContext → HandlerContext → Prop} ph s₀ s,
      (Live s ∧ ∀ s', Live s' → View.of s' = setView false (View.of s) → Q ph s₀ s') →
      Prog.Sat sessionProtocol h rpc (fun _ => Q) E (modifySession 0 (lock.set false)) ph s₀ s := by
    rintro Q ph s₀ s ⟨⟨session, hs⟩, hQ⟩
    exact sat_modifySession hs (fun v => hset false v session) fun s' hs' hv => hQ s' ⟨_, hs'⟩ hv
  simp only [autoLock, LockField.acquire, Prog.bind_eq, Prog.sat_bind, sat_getSession hs, hfree,
    Bool.false_eq_true, if_false]
  refine sat_modifySession hs (fun v => hset true v session) fun s' hs' hv => ?_
  rw [Prog.sat_andFinally]
  exact Prog.sat_mono (hbody s' ⟨_, hs'⟩ hv) (fun a => hend) fun e => hend

def setLockView (b : Bool) (v : View) : View := { v with lock := b }

def setProcessingView (b : Bool) (v : View) : View := { v with processing := b }

/-- Releasing the session lock throws if the lock is not set. -/
theorem sat_release {Q : Unit → Phase → HandlerContext → HandlerContext → Prop} {name : String}
    (hs : s.session = some (0, session))
    (hfree : (View.of s).lock = false → ∀ what, E (.stdException what) ph s₀ s)
    (hQ : (View.of s).lock = true → ∀ s',
      s'.session = some (0, { session with sessionLock := false }) →
      View.of s' = { View.of s with lock := false } → Q () ph s₀ s') :
    Prog.Sat sessionProtocol h rpc Q E (sessionLockField.release 0 name) ph s₀ s := by
  have hlock : (View.of s).lock = session.sessionLock := by
    rw [← view_withSession hs]
    rfl
  simp only [LockField.release, Prog.bind_eq, Prog.sat_bind, sat_getSession hs]
  cases hl : sessionLockField.get session with
  | true =>
      exact sat_modifySession (g := fun v => { v with lock := false }) hs (fun v => rfl)
        (hQ (hlock.trans hl))
  | false => exact hfree (hlock.trans hl) _

/-- The scope of the session lock, behind the test that refuses a session that
    is already locked. -/
theorem sat_withSessionLock {Q : Unit → Phase → HandlerContext → HandlerContext → Prop}
    {name peer : String} {body : Handler Unit} (hs : Live s)
    (hlocked : ∀ status, E (.finishErrorYieldNone status) ph s₀ s)
    (hbody : (View.of s).lock = false → ∀ s', Live s' →
      View.of s' = { View.of s with lock := true } →
      Prog.Sat sessionProtocol h rpc (Released (setLockView false) Q)
        (Released (setLockView false) E) body ph s₀ s') :
    Prog.Sat sessionProtocol h rpc Q E (withSessionLock 0 name peer body) ph s₀ s := by
  obtain ⟨session, hsession⟩ := hs
  have hlock : (View.of s).lock = session.sessionLock := by
    rw [← view_withSession hsession]
    rfl
  simp only [withSessionLock, Prog.bind_eq, Prog.sat_bind, sat_getSession hsession]
  cases hl : session.sessionLock with
  | true => exact hlocked _
  | false =>
      simp only [Bool.false_eq_true, if_false]
      refine sat_autoLock setLockView (fun b v σ => rfl) hsession hl fun s₁ hs₁ hv₁ => ?_
      rw [Prog.sat_bind]
      obtain ⟨session₁, hsession₁⟩ := hs₁
      refine sat_modifySession (g := id) hsession₁ (fun v => rfl) fun s₂ hs₂ hv₂ => ?_
      exact hbody (hlock.trans hl) s₂ ⟨_, hs₂⟩ (hv₂.trans hv₁)

theorem sat_findSession {Q : Nat → Phase → HandlerContext → HandlerContext → Prop}
    {notFound : String} (hs : Live s) (hQ : Q 0 ph s₀ s) :
    Prog.Sat sessionProtocol h rpc Q E (findSession notFound) ph s₀ s := by
  obtain ⟨session, hsession⟩ := hs
  simp only [findSession, Prog.bind_eq, Prog.sat_bind, sat_getContext, hsession]
  exact hQ

theorem sat_checkTainted {Q : Unit → Phase → HandlerContext → HandlerContext → Prop}
    {what : String} (hs : Live s)
    (htaint : (View.of s).tainted = true → ∀ status, E (.finishErrorYieldNone status) ph s₀ s)
    (hQ : (View.of s).tainted = false → Q () ph s₀ s) :
    Prog.Sat sessionProtocol h rpc Q E (checkTainted 0 what) ph s₀ s := by
  obtain ⟨session, hsession⟩ := hs
  have hview : (View.of s).tainted = session.tainted := by
    rw [← view_withSession hsession]
    rfl
  simp only [checkTainted, Prog.bind_eq, Prog.sat_bind, sat_getSession hsession]
  cases ht : session.tainted with
  | true => exact htaint (hview.trans ht) _
  | false => exact hQ (hview.trans ht)

theorem sat_checkEpochOverflow {Q : Unit → Phase → HandlerContext → HandlerContext → Prop}
    (hs : Live s) (hmax : ∀ status, E (.finishErrorYieldNone status) ph s₀ s)
    (hQ : (View.of s).active ≠ 0xFFFFFFFFFFFFFFFF → Q () ph s₀ s) :
    Prog.Sat sessionProtocol h rpc Q E (checkEpochOverflow 0) ph s₀ s := by
  obtain ⟨session, hsession⟩ := hs
  have hview : (View.of s).active = session.activeEpochIndex := by
    rw [← view_withSession hsession]
    rfl
  simp only [checkEpochOverflow, Prog.bind_eq, Prog.sat_bind, sat_getSession hsession]
  split
  · exact hmax _
  · rename_i hne
    exact hQ (hview ▸ hne)

/-- A request with the `ok` flag cleared is ignored. -/
theorem sat_onArrival {body : Handler Unit}
    (hs : Live s) (hbody : sessionProtocol.Keeps h rpc body .fresh s) :
    sessionProtocol.Keeps h rpc (onArrival body) .fresh s := by
  unfold onArrival Protocol.Keeps
  rw [Prog.bind_eq, Prog.sat_bind, sat_getContext]
  split
  · exact hbody
  · exact ⟨hs, .ignore⟩

/-- A segment that ends with an error answer, and the end of the handler. -/
theorem sat_refused {status : Status} (hs : Live s)
    (hstep : Trans h rpc ph (View.of s₀) (some .refused)
      ((View.of s).answer rpc (.finishWithError status))) :
    Prog.Sat sessionProtocol h rpc (fun _ ph s₀ s => sessionProtocol.Step h rpc ph s₀ none s) E
      (finishWithError rpc status) ph s₀ s :=
  sat_finishWithError .refused hs .refused hstep fun _ hs₁ => ⟨hs₁, .refused⟩

/-- A handler that answers every exception with an error. -/
theorem sat_answerErrors {body : Handler Unit}
    (hbody : Prog.Sat sessionProtocol h rpc
      (fun _ ph s₀ s => sessionProtocol.Step h rpc ph s₀ none s)
      (fun _ ph s₀ s => Live s ∧ ∀ status, Trans h rpc ph (View.of s₀) (some .refused)
        ((View.of s).answer rpc (.finishWithError status))) body ph s₀ s) :
    Prog.Sat sessionProtocol h rpc (fun _ ph s₀ s => sessionProtocol.Step h rpc ph s₀ none s) E
      (answerErrors rpc body) ph s₀ s := by
  rw [answerErrors, Prog.sat_tryCatch]
  refine Prog.sat_mono hbody (fun _ _ _ _ hQ => hQ) fun e ph s₀ s he => ?_
  cases e with
  | finishErrorYieldNone status => exact sat_refused he.1 (he.2 status)
  | taintSession ref status => exact sat_refused he.1 (he.2 _)
  | stdException what => exact sat_refused he.1 (he.2 _)

end ServerManager
