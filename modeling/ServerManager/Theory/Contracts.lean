import ServerManager.Theory.Borrow
import ServerManager.Theory.OneByOne

/-!
# What a Request Does to Its Session

Between its answers a request changes nothing of what it owns but the session it
captured a reference to. `Turns` says that of a program, with what holds of the
session, and of the state of the machine server, when the program returns and
when it throws. The rules are those of a logic for a program with one variable,
the session, and one lemma for each function of the manager is enough to follow
it through a handler.

## Main definitions

* `Own.put`: The session replaced.
* `Turns`: What a program makes of the session.

## Theorems

* `turns_bind`, `turns_mono`: Sequencing and consequence.
* `turns_getSession`, `turns_modifySession`, `turns_getEpoch`,
  `turns_modifyEpoch`: Access through a reference.
* `turns_callOrTaint`, `turns_callOrFail`: Calls to the machine server.
* `turns_tame`, `turns_quiet`: Programs that write nothing.
* `turns_trigger`: Waiting for a check-in.
* `turns_autoLock`, `turns_release`: Locks.
-/

namespace ServerManager

open Coroutine

variable [Keccak]

/-- The session behind reference `ref` is `x`. -/
def Own.put (v : Own) (ref : Nat) (x : SessionType) : Own :=
  { v with session := some (ref, x.placed "") }

section Put

variable {v : Own} {ref : Nat} {x y : SessionType}

omit [Keccak] in
@[simp]
theorem put_put : (v.put ref x).put ref y = v.put ref y := rfl

omit [Keccak] in
@[simp]
theorem put_session : (v.put ref x).session = some (ref, x.placed "") := rfl

omit [Keccak] in
@[simp]
theorem put_waiting : (v.put ref x).waiting = v.waiting := rfl

omit [Keccak] in
@[simp]
theorem put_placed (address : String) : v.put ref (x.placed address) = v.put ref x := rfl

omit [Keccak] in
/-- The session that `own` shows. -/
theorem own_session {s : HandlerContext} {x : SessionType} (hs : (own s).session = some (ref, x)) :
    ∃ address, s.session = some (ref, x.placed address) := by
  cases hsession : s.session with
  | none => simp [own, hsession] at hs
  | some p =>
      rcases p with ⟨n, y⟩
      simp only [own, hsession, Option.map_some, Option.some.injEq, Prod.mk.injEq] at hs
      rcases hs with ⟨rfl, rfl⟩
      exact ⟨y.serverAddress, rfl⟩

end Put

section Turns

variable (server : Server) {α β : Type}

/-- Run with `x` behind `ref`, the program returns with `R` or throws with `E`, and
    nothing of what it owns has changed but the session. -/
def Turns (ref : Nat) (v : Own) (R : α → server.State → SessionType → Prop)
    (E : Exn → server.State → SessionType → Prop) (c : Handler α) (m : server.State)
    (x : SessionType) : Prop :=
  c.Ensures (crew server).toSetting (fun a m' v' => ∃ x', v' = v.put ref x' ∧ R a m' x')
    (fun e m' v' => ∃ x', v' = v.put ref x' ∧ E e m' x') m (v.put ref x)

variable {server} {ref : Nat} {v : Own} {m : server.State} {x : SessionType}
variable {R R' : α → server.State → SessionType → Prop}
variable {E E' : Exn → server.State → SessionType → Prop}

/-! ### The constructs -/

omit [Keccak] in
theorem turns_mono {c : Handler α} (hc : Turns server ref v R E c m x)
    (hR : ∀ a m x, R a m x → R' a m x) (hE : ∀ e m x, E e m x → E' e m x) :
    Turns server ref v R' E' c m x := by
  refine Prog.ensures_mono hc ?_ ?_
  · rintro a m v' ⟨x', hx', hr⟩
    exact ⟨x', hx', hR _ _ _ hr⟩
  · rintro e m v' ⟨x', hx', he⟩
    exact ⟨x', hx', hE _ _ _ he⟩

omit [Keccak] in
theorem turns_pure {a : α} (hR : R a m x) : Turns server ref v R E (.pure a) m x :=
  Prog.ensures_pure ⟨x, rfl, hR⟩

omit [Keccak] in
theorem turns_throw {e : Exn} (hE : E e m x) :
    Turns server ref v R E (.throw e : Handler α) m x :=
  Prog.ensures_throw ⟨x, rfl, hE⟩

omit [Keccak] in
theorem turns_spin : Turns server ref v R E (.spin : Handler α) m x := Prog.ensures_spin

omit [Keccak] in
theorem turns_bind {R : β → server.State → SessionType → Prop} {c : Handler α}
    {f : α → Handler β} (hc : Turns server ref v (fun a => Turns server ref v R E (f a)) E c m x) :
    Turns server ref v R E (c >>= f) m x := by
  refine Prog.ensures_bind (Prog.ensures_mono hc ?_ fun _ _ _ he => he)
  rintro a m v' ⟨x', rfl, hf⟩
  exact hf

omit [Keccak] in
theorem turns_ite {b : Prop} [Decidable b] {c d : Handler α} (hc : b → Turns server ref v R E c m x)
    (hd : ¬ b → Turns server ref v R E d m x) : Turns server ref v R E (if b then c else d) m x := by
  by_cases hb : b
  · rw [if_pos hb]
    exact hc hb
  · rw [if_neg hb]
    exact hd hb

/-! ### Access through a reference -/

omit [Keccak] in
theorem turns_getSession {R : SessionType → server.State → SessionType → Prop}
    (hR : ∀ address, R (x.placed address) m x) :
    Turns server ref v R E (getSession ref) m x := by
  intro s hs
  have hsession : (own s).session = some (ref, x.placed "") := by rw [show own s = _ from hs]; rfl
  rcases own_session hsession with ⟨address, haddress⟩
  simp only [getSession, Prog.After, haddress, if_true]
  exact ⟨x, hs, hR address⟩

omit [Keccak] in
theorem turns_modifySession {R : Unit → server.State → SessionType → Prop}
    {f : SessionType → SessionType}
    (hf : ∀ address, (f (x.placed address)).placed "" = (f x).placed "") (hR : R () m (f x)) :
    Turns server ref v R E (modifySession ref f) m x := by
  intro s hs
  have hsession : (own s).session = some (ref, x.placed "") := by rw [show own s = _ from hs]; rfl
  rcases own_session hsession with ⟨address, haddress⟩
  simp only [modifySession, Prog.After, haddress, if_true]
  refine ⟨f x, ?_, hR⟩
  show own _ = _
  have hown : own s = v.put ref x := hs
  simp only [own, Own.put, Own.mk.injEq] at hown
  rcases hown with ⟨hid, -, hgeneration, hwaiting, hanswers⟩
  have hplaced : ((f ((x.placed "").placed address)).placed "") = (f x).placed "" := hf address
  simp only [own, Own.put, Option.map_some, hid, hgeneration, hwaiting, hanswers, hplaced]

omit [Keccak] in
theorem turns_getEpoch {R : EpochType → server.State → SessionType → Prop} {index : UInt64}
    (hR : ∀ e, x.epochs.lookup index = some e → R e m x) :
    Turns server ref v R E (getEpoch ref index) m x := by
  refine turns_bind (turns_getSession fun address => ?_)
  cases he : (x.placed address).epochs.lookup index with
  | none => exact Prog.ensures_halt
  | some e => exact turns_pure (hR e he)

omit [Keccak] in
theorem turns_modifyEpoch {R : Unit → server.State → SessionType → Prop} {index : UInt64}
    {f : EpochType → EpochType} (hR : ∀ e, x.epochs.lookup index = some e →
      R () m { x with epochs := x.epochs.insert index (f e) }) :
    Turns server ref v R E (modifyEpoch ref index f) m x :=
  turns_bind (turns_getEpoch fun e he => turns_modifySession (fun _ => rfl) (hR e he))

/-! ### Programs that write nothing -/

omit [Keccak] in
/-- What a program that makes calls without a check-in does to the server. -/
def Server.Keeps (server : Server) (I : server.State → Prop) : Prop :=
  ∀ c m r m', MachineCall.triggers c = false → I m → server.Replies (.call c) m r m' → I m'

omit [Keccak] in
theorem turns_only {ops : HandlerContext → Op → Prop} {exns : Exn → Prop}
    {halts : HandlerContext → Halt → Prop} {I : server.State → Prop} {c : Handler α}
    (hc : ∀ s, Prog.Only (S := handlerSignature) ops exns halts c s)
    (hops : ∀ s op, ops s op → ∃ c : MachineCall, op = .call c ∧ c.triggers = false)
    (hI : server.Keeps I) (hm : I m) :
    Turns server ref v (fun _ m' x' => I m' ∧ x' = x) (fun e m' x' => exns e ∧ I m' ∧ x' = x)
      c m x := by
  refine Prog.ensures_mono (Prog.ensures_only (I := I) hc ?_ hm) ?_ ?_
  · intro s op hop
    rcases hops s op hop with ⟨c, rfl, htriggers⟩
    exact ⟨rfl, fun m r m' hm hr => hI c m r m' htriggers hm hr⟩
  · rintro a m' v' ⟨hm', rfl⟩
    exact ⟨x, rfl, hm', rfl⟩
  · rintro e m' v' ⟨he, hm', rfl⟩
    exact ⟨x, rfl, he, hm', rfl⟩

omit [Keccak] in
theorem turns_tame {I : server.State → Prop} {c : Handler α} (hc : Tame ref c)
    (hI : server.Keeps I) (hm : I m) :
    Turns server ref v (fun _ m' x' => I m' ∧ x' = x) (fun e m' x' => About ref e ∧ I m' ∧ x' = x)
      c m x :=
  turns_only hc (fun _ _ ⟨c, hop, htriggers, _⟩ => ⟨c, hop, htriggers⟩) hI hm

omit [Keccak] in
theorem turns_quiet {I : server.State → Prop} {c : Handler α} (hc : Quiet ref c)
    (hI : server.Keeps I) (hm : I m) :
    Turns server ref v (fun _ m' x' => I m' ∧ x' = x) (fun e m' x' => Fails ref e ∧ I m' ∧ x' = x)
      c m x :=
  turns_only hc (fun _ _ ⟨c, hop, htriggers, _⟩ => ⟨c, hop, htriggers⟩) hI hm

omit [Keccak] in
theorem turns_refuses {I : server.State → Prop} {c : Handler α} (hc : Refuses ref c)
    (hI : server.Keeps I) (hm : I m) :
    Turns server ref v (fun _ m' x' => I m' ∧ x' = x)
      (fun e m' x' => (∃ status, e = .finishErrorYieldNone status) ∧ I m' ∧ x' = x) c m x :=
  turns_only hc (fun _ _ ⟨c, hop, htriggers, _⟩ => ⟨c, hop, htriggers⟩) hI hm

omit [Keccak] in
theorem turns_ofExcept {r : Except String α} (hR : ∀ a, r = .ok a → R a m x)
    (hE : ∀ what, r = .error what → E (.stdException what) m x) :
    Turns server ref v R E (ofExcept r) m x := by
  cases r with
  | ok a => exact turns_pure (hR a rfl)
  | error what => exact turns_throw (hE what rfl)

/-! ### Calls to the machine server -/

omit [Keccak] in
theorem turns_call {c : MachineCall} {R : CallReply c → server.State → SessionType → Prop}
    (hR : ∀ r m', server.Replies (.call c) m r m' → R r m' x) :
    Turns server ref v R E (call ref c) m x := by
  refine turns_bind (turns_getSession fun address => ?_)
  refine turns_ite (fun _ => ?_) fun _ => Prog.ensures_halt
  exact Prog.ensures_yield rfl fun r m' hr => turns_pure (hR r m' hr)

omit [Keccak] in
theorem turns_callOrTaint {c : MachineCall} {deadline : String}
    {R : c.Body → server.State → SessionType → Prop}
    (hR : ∀ r m', server.Replies (.call c) m r m' → r.status.isOk = true → R r.body m' x)
    (hE : ∀ r m' status, server.Replies (.call c) m r m' → E (.taintSession ref status) m' x) :
    Turns server ref v R E (callOrTaint ref c deadline) m x := by
  refine turns_bind (turns_call fun r m' hr => turns_bind ?_)
  refine turns_ite (fun hok => ?_) fun _ => turns_throw (hE r m' _ hr)
  exact turns_pure (turns_pure (hR r m' hr hok))

omit [Keccak] in
theorem turns_callOrFail {c : MachineCall} {deadline : String}
    {R : c.Body → server.State → SessionType → Prop}
    (hR : ∀ r m', server.Replies (.call c) m r m' → R r.body m' x)
    (hE : ∀ r m' status, server.Replies (.call c) m r m' → E (.finishErrorYieldNone status) m' x) :
    Turns server ref v R E (callOrFail ref c deadline) m x := by
  refine turns_bind (turns_call fun r m' hr => turns_bind ?_)
  refine turns_ite (fun _ => ?_) fun _ => turns_throw (hE r m' _ hr)
  exact turns_pure (turns_pure (hR r m' hr))

/-! ### Waiting for a check-in -/

omit [Keccak] in
theorem turns_getContext {R : HandlerContext → server.State → SessionType → Prop}
    (hR : ∀ s, own s = v.put ref x → R s m x) : Turns server ref v R E getContext m x :=
  fun s hs => ⟨x, hs, hR s hs⟩

omit [Keccak] in
theorem turns_checkServerStub {R : Unit → server.State → SessionType → Prop}
    (hR : R () m { x with serverStub := true })
    (hE : ∀ status, E (.finishErrorYieldNone status) m { x with serverStub := false }) :
    Turns server ref v R E (checkServerStub ref) m x := by
  refine turns_bind (turns_getContext fun s _ => turns_bind (turns_modifySession (fun _ => rfl) ?_))
  cases hstub : s.newStub with
  | true => exact turns_pure hR
  | false => exact turns_throw (hE _)

omit [Keccak] in
/-- Registering a wait shows in `own`, and so does its end. -/
theorem own_registered {s : HandlerContext} (hs : own s = v.put ref x) (self : HandlerId)
    (alarms : List AlarmState) : own { s with
      waitingCheckin := some { coroutine := self, alarm := s.alarms.length, status := none }
      alarms := alarms } = { v with waiting := some (self, s.alarms.length) }.put ref x := by
  simp only [own, Own.put, Own.mk.injEq] at hs
  simp [own, Own.put, hs]

omit [Keccak] in
theorem own_erased {s : HandlerContext} {waiting : Option (HandlerId × Nat)}
    (hs : own s = { v with waiting := waiting }.put ref x) (hwaiting : v.waiting = none)
    (alarms : List AlarmState) :
    own { s with waitingCheckin := none, alarms := alarms } = v.put ref x := by
  simp only [own, Own.put, Own.mk.injEq] at hs
  simp [own, Own.put, hs, hwaiting]

omit [Keccak] in
/-- The end of the wait, erased by the one who waited. -/
theorem ensures_eraseCheckin {waiting : Option (HandlerId × Nat)} {cctx : CheckinContext}
    {f : Unit → Handler α} (hwaiting : v.waiting = none)
    (hf : Turns server ref v R E (f ()) m x) :
    (eraseCheckin cctx >>= f).Ensures (crew server).toSetting
      (fun a m' v' => ∃ x', v' = v.put ref x' ∧ R a m' x')
      (fun e m' v' => ∃ x', v' = v.put ref x' ∧ E e m' x') m
      ({ v with waiting := waiting }.put ref x) :=
  fun _ hs => hf _ (own_erased hs hwaiting _)

omit [Keccak] in
/-- The server comes back, or the session is tainted, or its stub is lost. -/
theorem turns_trigger {self : HandlerId} {trigger : Handler Unit}
    {R : Unit → server.State → SessionType → Prop} (hwaiting : v.waiting = none)
    (htrigger : Turns server ref v (fun _ m' x' => R () m' { x' with serverStub := true } ∧
      (∀ status, E (.taintSession ref status) m' x') ∧
      ∀ status, E (.finishErrorYieldNone status) m' { x' with serverStub := false }) E trigger m x) :
    Turns server ref v R E (triggerAndWaitCheckin self ref trigger) m x := by
  refine turns_bind (turns_getSession fun address => turns_bind (turns_getContext fun s hs => ?_))
  refine turns_ite (fun _ => Prog.ensures_halt) fun _ => ?_
  refine turns_bind (turns_mono htrigger ?_ fun _ _ _ he => he)
  rintro - m' x' ⟨hR, htaint, hlost⟩
  refine turns_bind (turns_getSession fun address => ?_)
  -- the wait is registered, and its alarm set
  intro s hs
  refine ⟨rfl, ?_⟩
  intro r m₂ s' hm hs'
  rw [show m₂ = m' from hm]
  have hown : own s' = { v with waiting := some (self, s.alarms.length) }.put ref x' :=
    hs'.trans (own_registered hs self _)
  refine Prog.after_bind ?_
  show Prog.Ensures (crew server).toSetting _ _ _ _ (own s')
  rw [hown]
  -- whatever happened meanwhile, the session is as it was
  refine Prog.ensures_bind (Prog.ensures_mono (turns_getSession (E := fun _ _ _ => False)
    (R := fun y m₁ x₁ => m₁ = m' ∧ x₁ = x' ∧ ∃ address, y = x'.placed address)
    (fun address => ⟨rfl, rfl, address, rfl⟩)) ?_ fun e m₁ v₁ ⟨_, _, hfalse⟩ => hfalse.elim)
  rintro y m₁ v₁ ⟨x₁, rfl, rfl, rfl, address, rfl⟩
  refine Prog.ensures_bind (Prog.ensures_get fun s₁ _ => Prog.ensures_pure ?_)
  cases s₁.waitingCheckin with
  | none => exact Prog.ensures_halt
  | some cctx =>
      rcases cctx with ⟨k, alarm, - | success⟩
      · exact Prog.ensures_halt
      · cases success with
        | false =>
            exact ensures_eraseCheckin (f := fun _ => throwTaint ref _ _) hwaiting
              (turns_throw (htaint _))
        | true =>
            exact ensures_eraseCheckin (f := fun _ => checkServerStub ref) hwaiting
              (turns_checkServerStub hR hlost)

/-! ### Locks -/

/-- A lock flag is not where the address is. -/
structure LockField.Placed (lock : LockField) : Prop where
  get : ∀ (x : SessionType) address, lock.get (x.placed address) = lock.get x
  set : ∀ b (x : SessionType) address,
    (lock.set b (x.placed address)).placed "" = (lock.set b x).placed ""
  same : ∀ b (x : SessionType), lock.get (lock.set b x) = b

omit [Keccak] in
theorem placed_session : sessionLockField.Placed := ⟨fun _ _ => rfl, fun _ _ _ => rfl, fun _ _ => rfl⟩

omit [Keccak] in
theorem placed_processing : processingLockField.Placed :=
  ⟨fun _ _ => rfl, fun _ _ _ => rfl, fun _ _ => rfl⟩

omit [Keccak] in
theorem turns_andFinally {c : Handler α} {f : SessionType → SessionType}
    (hf : ∀ x address, (f (x.placed address)).placed "" = (f x).placed "")
    (hc : Turns server ref v (fun a m x => R a m (f x)) (fun e m x => E e m (f x)) c m x) :
    Turns server ref v R E (c.andFinally (modifySession ref f)) m x := by
  refine Prog.ensures_andFinally (Prog.ensures_mono hc ?_ ?_)
  · rintro a m' v' ⟨x', rfl, hR⟩
    exact turns_modifySession (hf x') hR
  · rintro e m' v' ⟨x', rfl, hE⟩
    exact turns_modifySession (hf x') hE

omit [Keccak] in
/-- The scope of a lock that is free. -/
theorem turns_autoLock {lock : LockField} {name : String} {body : Handler α} (hlock : lock.Placed)
    (hfree : lock.get x = false)
    (hbody : Turns server ref v (fun a m x => R a m (lock.set false x))
      (fun e m x => E e m (lock.set false x)) body m (lock.set true x)) :
    Turns server ref v R E (autoLock lock ref name body) m x := by
  refine turns_bind (turns_bind (turns_getSession fun address => ?_))
  refine turns_ite (fun htaken => ?_) fun _ => ?_
  · rw [hlock.get, hfree] at htaken
    cases htaken
  · exact turns_modifySession (hlock.set true x) (turns_andFinally (hlock.set false) hbody)

omit [Keccak] in
/-- Releasing a lock that is held. -/
theorem turns_release {lock : LockField} {name : String}
    {R : Unit → server.State → SessionType → Prop} (hlock : lock.Placed) (hheld : lock.get x = true)
    (hR : R () m (lock.set false x)) : Turns server ref v R E (lock.release ref name) m x := by
  refine turns_bind (turns_getSession fun address => ?_)
  refine turns_ite (fun hfree => ?_) fun _ => turns_modifySession (hlock.set false x) hR
  rw [hlock.get, hheld] at hfree
  cases hfree

end Turns

end ServerManager
