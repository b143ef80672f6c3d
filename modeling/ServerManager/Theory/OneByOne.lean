import ServerManager.Coroutine.Solo
import ServerManager.Theory.Picks

/-!
# Requests One After the Other

The runs in which a request only comes when the one before it has been dealt
with. Check-ins and deadlines still come at any time, the machine server still
answers what it likes, and the environment still decides when each event happens;
but two requests are never in flight together.

A check-in writes the address of the server, the status of a wait and its own
answer, and a deadline writes the status of a wait. `own` is everything else a
request can see, so these two are aides in the sense of `Solo`, and what is
proved of the program of a request alone holds of it in every such run.

## Main definitions

* `Rpc.aide`: Check-ins and deadlines.
* `Own`, `own`: What a request can see and the aides do not touch.
* `Server`, `crew`: A machine server, and the setting it gives rise to.
* `AtRest`: No request is in flight.
* `OneByOne`, `ServedBy`: The conditions on the events of a run.

## Theorems

* `minds_aide`: Check-ins and deadlines leave `own` alone.
* `solo_arrive`: A request comes.
* `solo_step`: Any other event.
-/

namespace ServerManager

open Coroutine

variable [Keccak]

/-- The two coroutines that are not about a request of a client. -/
def Rpc.aide : Rpc → Bool
  | .checkIn _ | .checkinDeadline _ => true
  | _ => false

/-- What a request can see that no check-in and no deadline changes. -/
structure Own where
  id : String
  session : Option (Nat × SessionType)
  generation : Nat
  waiting : Option (HandlerId × Nat)
  answers : List (Rpc × Answer)

/-- The session without the address of its server. -/
def SessionType.placed (session : SessionType) (address : String) : SessionType :=
  { session with serverAddress := address }

/-- The session without the address of its server, the wait without its status, and
    what was answered to requests. -/
def own (hctx : HandlerContext) : Own where
  id := hctx.id
  session := hctx.session.map fun s => (s.1, s.2.placed "")
  generation := hctx.generation
  waiting := hctx.waitingCheckin.map fun cctx => (cctx.coroutine, cctx.alarm)
  answers := hctx.sent.filter fun a => !a.1.aide

/-- A machine server: what it can answer in each of its states, and the state it
    is in after that. -/
structure Server where
  State : Type
  Answers : (c : MachineCall) → State → CallReply c → State → Prop

/-- A call is answered by the server, or found without its reply; nothing else
    has to do with the server. -/
def Server.Replies (server : Server) : (op : Op) → server.State → op.Reply → server.State → Prop
  | .call c, m, r, m' => server.Answers c m r m' ∨ (r = default ∧ m' = m)
  | _, m, _, m' => m' = m

/-- The setting of a request. -/
def crew (server : Server) : Crew handlerSignature Rpc where
  View := Own
  view := own
  Ghost := server.State
  Answers := server.Replies
  blank op m := by
    cases op with
    | call c => exact Or.inr ⟨rfl, rfl⟩
    | _ => exact rfl
  Aide rpc := rpc.aide = true

/-- No request is in flight. -/
def AtRest (w : Manager) : Prop :=
  ∀ k < w.next, (w.handlers k).all (fun p => p.tag.aide) = true

instance (w : Manager) : Decidable (AtRest w) :=
  inferInstanceAs (Decidable (∀ k < w.next, _ = true))

/-- A request only comes when there is none in flight. -/
def OneByOne (w : Manager) : Event → Prop
  | .arrive rpc _ _ _ => rpc.aide = false → AtRest w
  | _ => True

instance (w : Manager) (e : Event) : Decidable (OneByOne w e) := by
  cases e with
  | arrive rpc peer fuel env => exact inferInstanceAs (Decidable (rpc.aide = false → AtRest w))
  | _ => exact isTrue trivial

/-- The server answers a completed call of a request, and is left alone by
    everything else. -/
def ServedBy (server : Server) (w : Manager) (e : Event) (m m' : server.State) : Prop :=
  match e with
  | .complete h reply _ => ∀ p, w.handlers h = some p →
      if p.tag.aide then m' = m else server.Replies p.op m (reply p.op) m'
  | _ => m' = m

/-! ### The aides -/

omit [Keccak] in
@[simp]
theorem own_apply (env : Environment) (s : HandlerContext) : own (env.apply s) = own s := rfl

omit [Keccak] in
theorem own_prepared {w : Manager} {h : HandlerId} {s : HandlerContext} (hs : Prepared w h s) :
    own s = own w.shared := by
  cases hs with
  | plain => rfl
  | alarm => rfl
  | queue hj => rfl

section Aides

variable (server : Server) {v : Own} {s : HandlerContext}

omit [Keccak] in
theorem minds_getContext {α : Type} {f : HandlerContext → Handler α}
    (hf : (f s).Minds (crew server).toSetting v s) :
    (getContext >>= f).Minds (crew server).toSetting v s := hf

omit [Keccak] in
theorem minds_finish {rpc : Rpc} {response : Response} (hrpc : rpc.aide = true) (hs : own s = v) :
    (finish rpc response).Minds (crew server).toSetting v s := by
  refine ⟨?_, fun r s' => rfl⟩
  subst hs
  simp [crew, own, List.filter_append, hrpc]

omit [Keccak] in
theorem minds_finishWithError {rpc : Rpc} {status : Status} (hrpc : rpc.aide = true)
    (hs : own s = v) :
    (finishWithError rpc status).Minds (crew server).toSetting v s := by
  refine ⟨?_, fun r s' => rfl⟩
  subst hs
  simp [crew, own, List.filter_append, hrpc]

omit [Keccak] in
theorem minds_resume (k : HandlerId) (hs : own s = v) :
    (Prog.yield (.resume k) .pure : Handler Unit).Minds (crew server).toSetting v s :=
  ⟨hs, fun _ _ => rfl⟩

omit [Keccak] in
/-- A check-in is answered, or refused. -/
theorem minds_checkin (address : String) :
    (newCheckinHandler address).Minds (crew server).toSetting (own s) s := by
  show Prog.Minds (crew server).toSetting (own s) (if s.ok then _ else _) s
  by_cases hok : s.ok
  · rw [if_pos hok]
    refine Prog.minds_tryCatch ?_ fun e v s hs => ?_
    · refine minds_getContext server ?_
      cases hwait : s.waitingCheckin with
      | none => rfl
      | some cctx =>
          by_cases hsession : s.session.isNone
          · simp only [hsession, if_true]
            rfl
          · simp only [hsession]
            -- what is written is outside of `own`
            have hwrite : own { s with
                session := s.session.map fun s => (s.1, { s.2 with serverAddress := address })
                waitingCheckin := some { cctx with status := some true }
                alarms := cancelAlarm s.alarms cctx.alarm } = own s := by
              simp [own, hwait, SessionType.placed, Function.comp_def]
            refine Prog.minds_bind (c := acceptCheckin address cctx) hwrite fun _ v s hs => ?_
            exact Prog.minds_bind (minds_finish server rfl hs) fun _ v s hs =>
              minds_resume server _ hs
    · cases e with
      | finishErrorYieldNone status => exact minds_finishWithError server rfl hs
      | taintSession ref status => exact minds_finishWithError server rfl hs
      | stdException what => exact minds_finishWithError server rfl hs
  · rw [if_neg hok]
    rfl

omit [Keccak] in
theorem minds_deadline : checkinDeadlineResumed.Minds (crew server).toSetting (own s) s := by
  show Prog.Minds (crew server).toSetting (own s) (if s.ok then _ else _) s
  by_cases hok : s.ok
  · rw [if_pos hok]
    cases hwait : s.waitingCheckin with
    | none => trivial
    | some cctx =>
        have hwrite : own { s with waitingCheckin := some { cctx with status := some false } } =
            own s := by
          simp [own, hwait]
        exact minds_resume server _ hwrite
  · rw [if_neg hok]
    rfl

/-- Check-ins and deadlines leave `own` alone. -/
theorem minds_aide {rpc : Rpc} (hrpc : rpc.aide = true) (fuel : Nat) (peer : String)
    (h : HandlerId) : (handlerOf fuel peer rpc h).Minds (crew server).toSetting (own s) s := by
  cases rpc with
  | checkIn address => exact minds_checkin server address
  | checkinDeadline a => exact minds_deadline server
  | _ => cases hrpc

end Aides

/-! ### Events -/

section Events

variable {server : Server} {Q : server.State → Own → Prop} {w w' : Manager} {e : Event}
  {m m' : server.State}

/-- A world at rest in which a request comes. -/
theorem solo_arrive {rpc : Rpc} {peer : String} {fuel : Nat} {env : Environment}
    (hfiled : ∀ k p, w.handlers k = some p → k < w.next ∧ (crew server).Aside p)
    (hrpc : rpc.aide = false)
    (hc : (handlerOf fuel peer rpc w.next).Ensures (crew server).toSetting (fun _ => Q)
      (fun _ _ _ => True) m (own w.shared))
    (hstep : step w (.arrive rpc peer fuel env) = some w') :
    w'.halted ≠ none ∨ Solo (crew server) Q w' m := by
  rw [step_arrive (step_running hstep) (fun a ha => by subst ha; cases hrpc)] at hstep
  refine solo_worker (w := { prepare w env with next := w.next + 1 })
    (fun k p hp => ?_) (Nat.lt_succ_self _) (fun k p _ hp => (hfiled k p hp).2)
    (fun htag => ?_) (hc _ rfl) hstep
  · exact Nat.lt_succ_of_lt (hfiled k p hp).1
  · exact Bool.false_ne_true (hrpc.symm.trans htag)

/-- An event that is not a request. -/
theorem solo_step (hsolo : Solo (crew server) Q w m) (hstep : step w e = some w')
    (hserve : ServedBy server w e m m')
    (hrpc : ∀ rpc peer fuel env, e = .arrive rpc peer fuel env → rpc.aide = true) :
    w'.halted ≠ none ∨ Solo (crew server) Q w' m' := by
  rcases step_picks hstep with ⟨h, rpc, w₁, c, hpick, hadv⟩ | hidle
  · have hview : own w₁.shared = own w.shared := own_prepared hpick.prepared
    have hshared : Solo (crew server) Q { w with shared := w₁.shared } m := hsolo.share hview
    -- a coroutine that is new is an aide
    have hnew : rpc.aide = true → h = w.next → w₁.next = w.next + 1 → w₁.handlers = w.handlers →
        (∃ fuel peer, c = handlerOf fuel peer rpc h) → m' = m →
          w'.halted ≠ none ∨ Solo (crew server) Q w' m' := by
      rintro htag rfl hnext hhandlers ⟨fuel, peer, rfl⟩ rfl
      have hfree : w₁.handlers w.next = none := by
        cases hcon : w₁.handlers w.next with
        | none => rfl
        | some p =>
            rw [hhandlers] at hcon
            exact absurd (hsolo.filed _ p hcon) (Nat.lt_irrefl _)
      refine solo_aide ⟨fun k p hp => ?_, ?_⟩ (by omega) hfree htag
        (minds_aide server htag fuel peer w.next) hadv
      · have hk := hsolo.filed k p (by rw [← hhandlers]; exact hp)
        omega
      · rw [hhandlers]
        exact hshared.crew
    -- one that was parked is an aide or the worker
    have hold : ∀ p (r : p.op.Reply), w.handlers h = some p → p.tag = rpc → c = p.k r →
        w₁.next = w.next → (∀ k, w₁.handlers k = if k = h then none else w.handlers k) →
        (if p.tag.aide then m' = m else server.Replies p.op m r m') →
          w'.halted ≠ none ∨ Solo (crew server) Q w' m' := by
      rintro p r hp rfl rfl hnext hhandlers hreply
      have hlt := hsolo.filed h p hp
      have hothers : ∀ k q, w₁.handlers k = some q → k ≠ h ∧ w.handlers k = some q := by
        intro k q hq
        rw [hhandlers k] at hq
        by_cases hk : k = h
        · simp [hk] at hq
        · exact ⟨hk, by simpa [hk] using hq⟩
      have hgone : w₁.handlers h = none := by simp [hhandlers]
      have hfiled : ∀ k q, w₁.handlers k = some q → k < w₁.next := by
        intro k q hq
        rw [hnext]
        exact hsolo.filed k q (hothers k q hq).2
      have hrole : (crew server).Aside p ∨ (crew server).Works Q m w.shared p ∧
          ∀ k q, k ≠ h → w.handlers k = some q → (crew server).Aside q := by
        rcases hsolo.crew with ⟨haides, hQ⟩ | ⟨i, q, hq, hworks, haides⟩
        · exact Or.inl (haides h p hp)
        · by_cases hi : h = i
          · subst hi
            rw [hp] at hq
            cases hq
            exact Or.inr ⟨hworks, haides⟩
          · exact Or.inl (haides h p hi hp)
      rcases hrole with haside | ⟨hworks, haides⟩
      · have htag : p.tag.aide = true := haside.1
        rw [if_pos htag] at hreply
        cases hreply
        refine solo_aide ⟨hfiled, ?_⟩ (by omega) hgone haside.1 (haside.2 r w₁.shared) hadv
        rcases hshared.crew with ⟨haides, hQ⟩ | ⟨i, q, hq, hworks, haides⟩
        · exact Or.inl ⟨fun k q hq => haides k q (hothers k q hq).2, hQ⟩
        · have hi : i ≠ h := by
            rintro rfl
            have hpq : some p = some q := hp.symm.trans hq
            cases hpq
            exact hworks.1 haside.1
          exact Or.inr ⟨i, q, by rw [hhandlers, if_neg hi]; exact hq, hworks,
            fun k q hk hq => haides k q hk (hothers k q hq).2⟩
      · have htag : ¬ p.tag.aide = true := hworks.1
        rw [if_neg htag] at hreply
        exact solo_worker hfiled (by omega) (fun k q hk hq => haides k q hk (hothers k q hq).2)
          hworks.1 (hworks.2 r m' w₁.shared hreply hview) hadv
    cases hpick with
    | @arrived _ peer fuel env =>
        exact hnew (hrpc _ _ _ _ rfl) rfl rfl rfl ⟨_, _, rfl⟩ hserve
    | expired => exact hnew rfl rfl rfl rfl ⟨_, _, rfl⟩ hserve
    | completed hp hop => exact hold _ _ hp rfl rfl rfl (fun k => rfl) (hserve _ hp)
    | dequeued hj hp =>
        cases hserve
        refine hold _ _ hp rfl rfl (World.markStale_next ..) (fun k => ?_) ?_
        swap
        · split
          · rfl
          · exact (crew server).blank _ _
        show (if k = h then none else (World.markStale _ _ _).handlers k) = _
        rw [(markStale_fields _ _ _).2.1]
        rfl
  · cases hidle with
    | fire ha =>
        cases hserve
        exact Or.inr (hsolo.share rfl)
    | null hj hw' => exact Or.inl (by simp [hw'])
    | gone hj hh hw' => exact Or.inl (by simp [hw'])
    | stale hk hw' => exact Or.inl (by simp [hw'])

end Events

end ServerManager
