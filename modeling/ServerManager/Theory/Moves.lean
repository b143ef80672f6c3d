import ServerManager.Theory.Picks
import ServerManager.Theory.Reports

/-!
# Events of the Dispatch Loop

Every RPC on a session that is there keeps to the protocol, so an event of the
dispatch loop is an event of the protocol. `step_turn` spells out what the event
is there: which handler runs and why, from which phase and which view, and how
the phases and the view come out.

Two kinds of events have a second handler in them. A CheckIn whose answer was
acknowledged and a deadline that fired resume the handler that waits, on the
spot. The turn is then that of the handler that was resumed, and the other one
is over when the event is.

Every invariant of the session is a predicate on the phases of all handlers and
the view, and `runs_good` is how all of them are carried along a run.

## Main definitions

* `OnSession`, `Event.only`, `Legal`: The RPCs and events on a session that is there.
* `Cause`, `Enters`: Why a handler runs, and with which view.
* `Turn`: What an event does.
* `Good`: A world that abides by the protocol and satisfies an invariant.

## Theorems

* `keeps_handlerOf`: Every handler keeps to the protocol.
* `step_turn`: Every event is the turn of a handler.
* `runs_good`: What every turn keeps, every run keeps.
-/

namespace ServerManager

open Coroutine

variable [Keccak]

/-- The RPCs on a session that is there, and the check-in deadline. -/
def OnSession : Rpc → Bool
  | .startSession _ | .endSession => false
  | _ => true

/-- Every handler keeps to the protocol. -/
theorem keeps_handlerOf (fuel : Nat) (peer : String) {rpc : Rpc} (hrpc : OnSession rpc)
    {h : HandlerId} {s : HandlerContext} (hs : Live s) :
    sessionProtocol.Keeps h rpc (handlerOf fuel peer rpc h) .fresh s := by
  cases rpc with
  | startSession request => cases hrpc
  | advanceState request => exact keeps_advanceState fuel peer hs
  | inspectState payload => exact keeps_inspectState fuel peer hs
  | finishEpoch request => exact keeps_finishEpoch peer request hs
  | deleteEpoch index => exact keeps_deleteEpoch peer index hs
  | endSession => cases hrpc
  | getSessionStatus => exact keeps_getSessionStatus peer hs
  | getEpochStatus index => exact keeps_getEpochStatus peer index hs
  | checkIn address => exact keeps_checkIn address hs
  | checkinDeadline alarm => exact keeps_checkinDeadline alarm hs

/-- The ways to a direct resume: an acknowledged CheckIn resumes the coroutine
    it knows, and a deadline the one that is registered. -/
inductive Wakes : Rpc → Phase → View → HandlerId → View → Prop
  | checkedIn {address : String} {v : View} {coroutine : HandlerId} :
      Wakes (.checkIn address) (.checkedIn coroutine) v coroutine v
  | deadline {alarm : Nat} {v : View} {cctx : CheckinContext} (hwait : v.waiting = some cctx) :
      Wakes (.checkinDeadline alarm) .fresh v cctx.coroutine
        { v with waiting := some { cctx with status := some false } }

omit [Keccak] in
/-- Only a handler that resumes another is parked on such an operation. -/
theorem phaseAt_target {rpc : Rpc} {ph : Phase} {op : Op} {g : HandlerId}
    (hat : PhaseAt rpc ph op) (htarget : Op.target op = some g) : ph = .resuming g := by
  cases hat with
  | resuming => exact congrArg _ (Option.some.inj htarget)
  | _ => cases htarget

theorem wakes_of_trans {h g : HandlerId} {rpc : Rpc} {ph : Phase} {v v' : View}
    (hstep : Trans h rpc ph v (some (.resuming g)) v') : Wakes rpc ph v g v' := by
  cases hstep with
  | start hs => cases hs
  | finish _ _ _ _ _ _ _ hf => cases hf
  | stored _ hf => cases hf
  | acceptedTaint _ ht => cases ht
  | advanceTaint _ ht => cases ht
  | checkedIn => exact .checkedIn
  | deadline hwait => exact .deadline hwait

/-- A handler that resumed another is over after that. -/
theorem trans_resuming {h g : HandlerId} {rpc : Rpc} {v v' : View} {t : Option Phase}
    (hstep : Trans h rpc (.resuming g) v t v') : t = none ∧ v' = v := by
  cases hstep with
  | start hs => cases hs
  | resumed => exact ⟨rfl, rfl⟩

/-! ### Who runs -/

/-- The requests that arrive are of some kind. -/
def Event.only (rpcs : Rpc → Bool) : Event → Bool
  | .arrive rpc _ _ _ => rpcs rpc
  | _ => true

/-- The events on a session that is there. -/
abbrev Legal : Event → Bool := Event.only OnSession

/-- The event in which a check-in deadline runs. -/
def Expires (e : Event) : Prop :=
  (∃ a peer fuel env, e = .arrive (.checkinDeadline a) peer fuel env) ∨ ∃ a env, e = .alarm a env

/-- Why handler `i` runs in an event. -/
inductive Cause (w : Manager) (φ : HandlerId → Option Phase) (e : Event) (i : HandlerId) :
    Rpc → Phase → View → Prop
  /-- Its request came, or its alarm. -/
  | arrived {rpc : Rpc} {v₀ : View} (hφ : φ i = none) (hnew : i = w.next)
      (hrpc : (∃ peer fuel env, e = .arrive rpc peer fuel env) ∨
        ∃ a env, e = .alarm a env ∧ rpc = .checkinDeadline a)
      (hq : v₀.queue = (View.of w.shared).queue)
      (hw : v₀.waiting = (View.of w.shared).waiting) : Cause w φ e i rpc .fresh v₀
  /-- What it waited for came. -/
  | completed {rpc : Rpc} {ph : Phase} {v₀ : View} (hφ : φ i = some ph)
      (hc : ph.completes = true) (hq : v₀.queue = (View.of w.shared).queue)
      (hw : v₀.waiting = (View.of w.shared).waiting) (he : ∀ a env, e ≠ .alarm a env) :
      Cause w φ e i rpc ph v₀
  /-- It was in the completion queue. -/
  | dequeued {rpc : Rpc} {ph : Phase} {v₀ : View} {j : Nat} (hφ : φ i = some ph)
      (hj : (View.of w.shared).queue[j]? = some (some i))
      (hq : v₀.queue = (View.of w.shared).queue.eraseIdx j)
      (hw : v₀.waiting = (View.of w.shared).waiting) (he : ∀ a env, e ≠ .alarm a env) :
      Cause w φ e i rpc ph v₀
  /-- Another handler resumed it on the spot. -/
  | resumed {rpc : Rpc} {ph : Phase} {v₀ : View} {h : HandlerId} (hφ : φ i = some ph)
      (hdirect : directTarget w e = some i) (hne : h ≠ i)
      (hwake : φ h = some (.checkedIn i) ∨ (φ h = none ∧
        ∃ cctx, (View.of w.shared).waiting = some cctx ∧ cctx.coroutine = i))
      (hq : v₀.queue = (View.of w.shared).queue ∨
        ∃ j, (View.of w.shared).queue[j]? = some (some h) ∧
          v₀.queue = (View.of w.shared).queue.eraseIdx j)
      (hw : v₀.waiting.map CheckinContext.coroutine =
        (View.of w.shared).waiting.map CheckinContext.coroutine)
      (hstatus : (v₀.waiting = (View.of w.shared).waiting ∧ ∀ a env, e ≠ .alarm a env) ∨
        ((∃ cctx, v₀.waiting = some cctx ∧ cctx.status = some false) ∧ Expires e)) :
      Cause w φ e i rpc ph v₀

/-- Handler `i` begins to run, in some phase and with some view. -/
structure Enters (w : Manager) (φ : HandlerId → Option Phase) (e : Event) (i : HandlerId)
    (rpc : Rpc) (ph : Phase) (v₀ : View) : Prop where
  cause : Cause w φ e i rpc ph v₀
  view : v₀ = { View.of w.shared with
    newStub := v₀.newStub, queue := v₀.queue, waiting := v₀.waiting }
  stub : ∃ env, e.env = some env ∧ v₀.newStub = env.newStub

/-- What an event does: a handler runs, up to where it is parked next. Whoever
    resumed it is over. -/
structure Turn (w : Manager) (φ : HandlerId → Option Phase) (e : Event) (i : HandlerId)
    (rpc : Rpc) (ph : Phase) (v₀ : View) (t : Option Phase) (φ' : HandlerId → Option Phase)
    (v' : View) : Prop where
  enters : Enters w φ e i rpc ph v₀
  trans : Trans i rpc ph v₀ t v'
  after : φ' i = t
  others : ∀ k, k ≠ i → φ' k = φ k ∨ (φ' k = none ∧ ∃ g, φ k = some (.checkedIn g))
  ran : runsIn w e i = true
  sole : ∀ k, runsIn w e k = true → k = i ∨ φ' k = none

/-- What becomes of an event: the process ends, or nothing that matters happens,
    or a handler has its turn. Of the ends of the process, only the second
    check-in wait and the use of what was erased are described. -/
def Moves (w : Manager) (φ : HandlerId → Option Phase) (e : Event) (w' : Manager) : Prop :=
  (∃ x, w'.halted = some x ∧ (x = .alreadyWaitingCheckin ∨ x = .useAfterFree →
    ∃ i rpc ph v₀, Enters w φ e i rpc ph v₀ ∧ Crashes i rpc ph v₀ x)) ∨
  (w'.halted = none ∧ ∃ φ', sessionProtocol.Abides w' φ' ∧
    ((φ' = φ ∧ View.of w'.shared = View.of w.shared ∧ ∀ k, runsIn w e k = false) ∨
      ∃ i rpc ph v₀ t, Turn w φ e i rpc ph v₀ t φ' (View.of w'.shared)))

/-! ### Every event is the turn of a handler -/

omit [Keccak] in
theorem view_apply (env : Environment) (s : HandlerContext) :
    View.of (env.apply s) = { View.of s with newStub := env.newStub } := by
  unfold View.of Environment.apply
  cases s.session with
  | none => rfl
  | some entry => rfl

omit [Keccak] in
theorem view_setAlarm (w : Manager) (i : Nat) (a : AlarmState) :
    View.of (setAlarm w i a).shared = View.of w.shared := by
  unfold setAlarm View.of
  cases w.shared.session with
  | none => rfl
  | some entry => rfl

/-- Changing the context of a world without the session being touched. -/
theorem abides_shared {w : Manager} {φ : HandlerId → Option Phase} {s : HandlerContext}
    (ha : sessionProtocol.Abides w φ) (hs : Live s) :
    sessionProtocol.Abides { w with shared := s } φ := ⟨hs, ha.follows, ha.unused⟩

omit [Keccak] in
theorem phaseAt_ne_fresh {rpc : Rpc} {ph : Phase} {op : Op} (hat : PhaseAt rpc ph op) :
    ph ≠ .fresh := by
  cases hat <;> exact Phase.noConfusion

omit [Keccak] in
theorem phaseAt_completes {rpc : Rpc} {ph : Phase} {op : Op} (hat : PhaseAt rpc ph op) :
    ph.completes = op.completes := by
  cases hat <;> rfl

/-- How the handler that an event is for begins to run. -/
structure Begins (w : Manager) (φ : HandlerId → Option Phase) (e : Event) (h : HandlerId)
    (rpc : Rpc) (ph : Phase) (v₁ : View) (φ₀ : HandlerId → Option Phase) : Prop where
  enters : Enters w φ e h rpc ph v₁
  before : (φ h = none ∧ ph = .fresh) ∨ (φ h = some ph ∧ ph ≠ .fresh)
  queue : v₁.queue = (View.of w.shared).queue ∨
    ∃ j, (View.of w.shared).queue[j]? = some (some h) ∧
      v₁.queue = (View.of w.shared).queue.eraseIdx j
  waiting : v₁.waiting = (View.of w.shared).waiting
  running : φ₀ h = none
  others : ∀ k, k ≠ h → φ₀ k = φ k
  runner : e.runner w = some h
  alarm : ph ≠ .fresh → ∀ a env, e ≠ .alarm a env

/-- A handler that resumes another passes the turn on. -/
theorem Begins.resumed {w : Manager} {φ φ₀ : HandlerId → Option Phase} {e : Event}
    {h g : HandlerId} {rpc : Rpc} {ph phg : Phase} {v₁ v₂ : View}
    (hb : Begins w φ e h rpc ph v₁ φ₀) (rpcg : Rpc) (hwake : Wakes rpc ph v₁ g v₂)
    (hdirect : directTarget w e = some g) (hφg : φ₀ g = some phg) :
    h ≠ g ∧ Enters w φ e g rpcg phg v₂ ∧
      (φ h = none ∨ ∃ g, φ h = some (.checkedIn g)) := by
  have hne : h ≠ g := by
    rintro rfl
    rw [hb.running] at hφg
    cases hφg
  rw [hb.others g hne.symm] at hφg
  cases hwake with
  | checkedIn =>
      obtain ⟨-, hfresh⟩ | ⟨hφh, -⟩ := hb.before
      · cases hfresh
      · exact ⟨hne, ⟨.resumed hφg hdirect hne (Or.inl hφh) hb.queue (by rw [hb.waiting])
          (Or.inl ⟨hb.waiting, hb.alarm Phase.noConfusion⟩), hb.enters.view, hb.enters.stub⟩,
          Or.inr ⟨g, hφh⟩⟩
  | @deadline alarm _ cctx hwait =>
      obtain ⟨hφh, -⟩ | ⟨-, hfresh⟩ := hb.before
      · have hv := hb.waiting ▸ hwait
        refine ⟨hne, ⟨.resumed hφg hdirect hne (Or.inr ⟨hφh, cctx, hv, rfl⟩) hb.queue ?_
          (Or.inr ⟨⟨_, rfl, rfl⟩, ?_⟩), ?_, hb.enters.stub⟩, Or.inl hφh⟩
        · rw [hv]
          rfl
        · cases hb.enters.cause with
          | arrived _ _ hrpc =>
              rcases hrpc with ⟨peer, fuel, env, he⟩ | ⟨a, env, he, -⟩
              · exact Or.inl ⟨alarm, peer, fuel, env, he⟩
              · exact Or.inr ⟨a, env, he⟩
          | completed hφ => rw [hφh] at hφ; cases hφ
          | dequeued hφ => rw [hφh] at hφ; cases hφ
          | resumed hφ => rw [hφh] at hφ; cases hφ
        · have hview := hb.enters.view
          rw [hview]
      · exact absurd rfl hfresh

/-- An outcome of the world is a move of the session. -/
theorem moves_of_outcome {w w₁ w' : Manager} {φ φ₀ : HandlerId → Option Phase} {e : Event}
    {h : HandlerId} {rpc : Rpc} {ph : Phase} {v₁ : View}
    (hb : Begins w φ e h rpc ph v₁ φ₀) (hv₁ : View.of w₁.shared = v₁)
    (hout : sessionProtocol.Outcome h rpc ph w₁ φ₀ (directTarget w e) w') : Moves w φ e w' := by
  subst hv₁
  rcases hout with ⟨x, hx, hbreak⟩ | ⟨hhalt, -, φ', ha', hadv⟩
  · refine Or.inl ⟨x, hx, fun hx' => ?_⟩
    cases hbreak with
    | own hhalt => exact ⟨h, rpc, ph, _, hb.enters, hhalt⟩
    | gone hstep hat htarget hdirect hg => exact absurd hx' (by decide)
    | @target _ _ _ _ g p phg _ hstep hat htarget hdirect hg hφg hhalt =>
        rw [phaseAt_target hat htarget] at hstep
        have hr := hb.resumed p.tag (wakes_of_trans hstep.2) hdirect hφg
        exact ⟨g, p.tag, phg, _, hr.2.1, hhalt⟩
    | tail hstep hat htarget hdirect hg hφg hstepg hhalt =>
        rw [phaseAt_target hat htarget] at hhalt
        cases hhalt with
        | start hs => cases hs
        | lost hlost => cases hlost with
          | epoch hph => cases hph
          | query hph => cases hph
        | other hx hfree => exact absurd hx' (not_or.2 ⟨hx, hfree⟩)
  · refine Or.inr ⟨hhalt, φ', ha', Or.inr ?_⟩
    generalize w'.shared = s' at hadv
    cases hadv with
    | @plain t _ hstep hdirect =>
        refine ⟨h, rpc, ph, _, t, hb.enters, hstep.2, Function.update_self .., fun k hk => ?_,
          ?_, fun k hk => Or.inl ?_⟩
        · rw [Function.update_of_ne hk]
          exact Or.inl (hb.others k hk)
        · simp [runsIn, hb.runner]
        · simp only [runsIn, hb.runner, hdirect, Bool.or_eq_true, beq_iff_eq,
            Option.some.injEq, reduceCtorEq, or_false] at hk
          exact hk.symm
    | @nested _ _ _ _ _ g p phg tg _ hstep hat htarget hdirect hg hφg hstepg htail =>
        rw [phaseAt_target hat htarget] at hstep htail
        obtain ⟨rfl, hv⟩ := trans_resuming htail.2
        obtain ⟨hne, henters, hover⟩ :=
          hb.resumed p.tag (wakes_of_trans hstep.2) hdirect hφg
        rw [hv]
        refine ⟨g, p.tag, phg, _, tg, henters, hstepg.2, ?_, fun k hk => ?_, ?_, fun k hk => ?_⟩
        · rw [Function.update_of_ne hne.symm, Function.update_self]
        · by_cases hkh : k = h
          · subst hkh
            rw [Function.update_self]
            obtain hφh | hφh := hover
            · exact Or.inl hφh.symm
            · exact Or.inr ⟨rfl, hφh⟩
          · rw [Function.update_of_ne hkh, Function.update_of_ne hk]
            exact Or.inl (hb.others k hkh)
        · simp [runsIn, hdirect]
        · simp only [runsIn, hb.runner, hdirect, Bool.or_eq_true, beq_iff_eq,
            Option.some.injEq] at hk
          rcases hk with rfl | rfl
          · exact Or.inr (Function.update_self ..)
          · exact Or.inl rfl

/-- A handler that is new begins to run. -/
theorem begins_arrived {w : Manager} {φ : HandlerId → Option Phase} {e : Event} {h : HandlerId}
    {rpc : Rpc} {env : Environment} (hφ : φ h = none) (henv : e.env = some env)
    (hrunner : e.runner w = some h)
    (hrpc : (∃ peer fuel env, e = .arrive rpc peer fuel env) ∨
      ∃ a env, e = .alarm a env ∧ rpc = .checkinDeadline a) :
    Begins w φ e h rpc .fresh { View.of w.shared with newStub := env.newStub } φ := by
  have hnew : h = w.next := by
    rcases hrpc with ⟨peer, fuel, env, rfl⟩ | ⟨a, env, rfl, -⟩
    · exact (Option.some.inj hrunner).symm
    · exact (Option.some.inj hrunner).symm
  exact ⟨⟨.arrived hφ hnew hrpc rfl rfl, rfl, env, henv, rfl⟩, Or.inl ⟨hφ, rfl⟩, Or.inl rfl, rfl,
    hφ, fun _ _ => rfl, hrunner, fun hne => absurd rfl hne⟩

/-- What a handler waited for came. -/
theorem begins_completed {w : Manager} {φ : HandlerId → Option Phase} {e : Event} {h : HandlerId}
    {rpc : Rpc} {ph : Phase} {op : Op} {env : Environment} (hφ : φ h = some ph)
    (henv : e.env = some env) (hrunner : e.runner w = some h)
    (halarm : ∀ a env, e ≠ .alarm a env) (hat : PhaseAt rpc ph op)
    (hop : op.completes = true) :
    Begins w φ e h rpc ph { View.of w.shared with newStub := env.newStub }
      (Function.update φ h none) :=
  ⟨⟨.completed hφ ((phaseAt_completes hat).trans hop) rfl rfl halarm, rfl, env, henv, rfl⟩,
    Or.inr ⟨hφ, phaseAt_ne_fresh hat⟩, Or.inl rfl, rfl, Function.update_self ..,
    fun _ hk => Function.update_of_ne hk .., hrunner, fun _ => halarm⟩

/-- A handler came out of the completion queue. -/
theorem begins_dequeued {w : Manager} {φ : HandlerId → Option Phase} {e : Event} {h : HandlerId}
    {rpc : Rpc} {ph : Phase} {op : Op} {env : Environment} {j : Nat} (hφ : φ h = some ph)
    (henv : e.env = some env) (hrunner : e.runner w = some h)
    (halarm : ∀ a env, e ≠ .alarm a env) (hat : PhaseAt rpc ph op)
    (hj : (View.of w.shared).queue[j]? = some (some h)) :
    Begins w φ e h rpc ph
      { View.of w.shared with
        newStub := env.newStub
        queue := (View.of w.shared).queue.eraseIdx j }
      (Function.update φ h none) :=
  ⟨⟨.dequeued hφ hj rfl rfl halarm, rfl, env, henv, rfl⟩, Or.inr ⟨hφ, phaseAt_ne_fresh hat⟩,
    Or.inr ⟨j, hj, rfl⟩, rfl, Function.update_self .., fun _ hk => Function.update_of_ne hk ..,
    hrunner, fun _ => halarm⟩

/-- A handler that is started in a world with the same view has its turn. -/
theorem moves_start {w w₁ w' : Manager} {φ : HandlerId → Option Phase} {e : Event} {rpc : Rpc}
    {peer : String} {fuel : Nat} {env : Environment} (hrpc : OnSession rpc)
    (ha : sessionProtocol.Abides w₁ φ) (hw : w₁.halted = none)
    (hv : View.of w₁.shared = { View.of w.shared with newStub := env.newStub })
    (henv : e.env = some env) (hrunner : e.runner w = some w₁.next)
    (harrive : (∃ peer fuel env, e = .arrive rpc peer fuel env) ∨
      ∃ a env, e = .alarm a env ∧ rpc = .checkinDeadline a)
    (hdirect : directTarget w e = (handlerOf fuel peer rpc w₁.next).target w₁.shared)
    (hstart : w₁.start rpc (handlerOf fuel peer rpc) = some w') : Moves w φ e w' := by
  obtain ⟨hφ, hout⟩ :=
    Protocol.outcome_start ha hw (keeps_handlerOf fuel peer hrpc ha.live) hstart
  rw [← hdirect] at hout
  have hv' : View.of ({ w₁ with next := w₁.next + 1 } : Manager).shared = _ := hv
  exact moves_of_outcome (begins_arrived hφ henv hrunner harrive) hv' hout

omit [Keccak] in
theorem view_dequeue (env : Environment) (s : HandlerContext) (queue : List (Option HandlerId)) :
    View.of (env.apply { s with completionQueue := queue }) =
      { View.of s with newStub := env.newStub, queue := queue } := by
  unfold View.of Environment.apply
  cases s.session with
  | none => rfl
  | some entry => rfl

omit [Keccak] in
theorem view_of_queue (s : HandlerContext) : (View.of s).queue = s.completionQueue := by
  unfold View.of
  cases s.session with
  | none => rfl
  | some entry => rfl

theorem moves_complete {w w' : Manager} {φ : HandlerId → Option Phase} {h : HandlerId}
    {reply : (op : Op) → op.Reply} {env : Environment} {p : Suspended handlerSignature Rpc}
    (ha : sessionProtocol.Abides w φ) (hw : w.halted = none) (hp : w.handlers h = some p)
    (hop : p.op.completes = true) (hstep : (prepare w env).resume h reply = some w') :
    Moves w φ (.complete h reply env) w' := by
  have ha₁ : sessionProtocol.Abides (prepare w env) φ := abides_shared ha ha.live
  have hp₁ : (prepare w env).handlers h = some p := hp
  unfold World.resume at hstep
  rw [hp₁] at hstep
  obtain ⟨ph, hφ, hat, hout⟩ := Protocol.outcome_continue ha₁ hw hp₁ hstep
  have hdirect : directTarget w (.complete h reply env) =
      (p.k (reply p.op)).target (prepare w env).shared := by
    simp only [directTarget, hp, Option.bind_some]
    rfl
  rw [← hdirect] at hout
  exact moves_of_outcome (begins_completed hφ rfl rfl (fun _ _ h => by cases h) hat hop) (view_apply env w.shared) hout

theorem moves_dequeue {w w' : Manager} {φ : HandlerId → Option Phase} {i : Nat} {h : HandlerId}
    {env : Environment} (ha : sessionProtocol.Abides w φ) (hw : w.halted = none)
    (hi : w.shared.completionQueue[i]? = some (some h))
    (hstep : (prepare { w with shared := { w.shared with
      completionQueue := w.shared.completionQueue.eraseIdx i } } env).resumeBlank h = some w') :
    Moves w φ (.dequeue i env) w' := by
  generalize hw₁ : prepare { w with shared := { w.shared with
    completionQueue := w.shared.completionQueue.eraseIdx i } } env = w₁ at hstep
  have ha₁ : sessionProtocol.Abides w₁ φ := hw₁ ▸ ⟨ha.live, ha.follows, ha.unused⟩
  have hh₁ : w₁.handlers = w.handlers := by rw [← hw₁]; rfl
  have hhalt₁ : w₁.halted = none := by rw [← hw₁]; exact hw
  have hs₁ : w₁.shared = env.apply { w.shared with
      completionQueue := w.shared.completionQueue.eraseIdx i } := by rw [← hw₁]; rfl
  unfold World.resumeBlank at hstep
  cases hp : w₁.handlers h with
  | none =>
      rw [hp] at hstep
      cases hstep
      exact Or.inl ⟨_, rfl, fun hx => absurd hx (by decide)⟩
  | some p =>
      rw [hp] at hstep
      obtain ⟨hshared, hhandlers, hhalted⟩ := markStale_fields w₁ h p.op
      obtain ⟨ph, hφ, hat, hout⟩ := Protocol.outcome_continue (ha₁.markStale h p.op)
        (hhalted.trans hhalt₁) ((congrFun hhandlers h).trans hp) hstep
      have hdirect : directTarget w (.dequeue i env) =
          (p.k default).target (w₁.markStale h p.op).shared := by
        rw [hh₁] at hp
        simp only [directTarget, hi, Option.join_some, Option.bind_some, hp, hshared, hs₁]
      have hq : (View.of w.shared).queue[i]? = some (some h) := by rw [view_of_queue]; exact hi
      rw [← hdirect] at hout
      have hrunner : Event.runner w (.dequeue i env) = some h := by
        simp only [Event.runner, hi, Option.join_some]
      refine moves_of_outcome (begins_dequeued hφ rfl hrunner (fun _ _ h => by cases h) hat hq) ?_ hout
      show View.of (w₁.markStale h p.op).shared = _
      rw [hshared, hs₁, view_dequeue, view_of_queue]

/-- Every event is the turn of a handler, or the end of the process. -/
theorem step_moves {w w' : Manager} {φ : HandlerId → Option Phase} {e : Event}
    (hlegal : Legal e) (ha : sessionProtocol.Abides w φ) (hw : w.halted = none)
    (hstep : step w e = some w') : Moves w φ e w' := by
  have hrunning : ¬ w.halted.isSome = true := by
    rw [hw]
    exact Bool.false_ne_true
  unfold step at hstep
  rw [if_neg hrunning] at hstep
  cases e with
  | arrive rpc peer fuel env =>
      have hstart : (prepare w env).start rpc (handlerOf fuel peer rpc) = some w' := by
        cases rpc with
        | checkinDeadline a => cases hstep
        | _ => exact hstep
      have ha₁ : sessionProtocol.Abides (prepare w env) φ := abides_shared ha ha.live
      exact moves_start hlegal ha₁ hw (view_apply env w.shared) rfl rfl
        (Or.inl ⟨peer, fuel, env, rfl⟩) rfl hstart
  | complete h reply env =>
      simp only at hstep
      cases hp : w.handlers h with
      | none => simp only [hp] at hstep; cases hstep
      | some p =>
          simp only [hp] at hstep
          by_cases hop : p.op.completes = true
          · rw [if_pos hop] at hstep
            exact moves_complete ha hw hp hop hstep
          · rw [if_neg hop] at hstep
            cases hstep
  | dequeue i env =>
      simp only at hstep
      rcases hi : w.shared.completionQueue[i]? with - | (- | h)
      · simp only [hi] at hstep; cases hstep
      · simp only [hi] at hstep
        cases hstep
        exact Or.inl ⟨_, rfl, fun hx => absurd hx (by decide)⟩
      · simp only [hi] at hstep
        exact moves_dequeue ha hw hi hstep
  | fire i =>
      simp only at hstep
      by_cases hi : w.shared.alarms[i]? = some .running
      · rw [if_pos hi] at hstep
        cases hstep
        exact Or.inr ⟨hw, φ, abides_shared ha ha.live,
          Or.inl ⟨rfl, view_setAlarm w i _, fun _ => rfl⟩⟩
      · rw [if_neg hi] at hstep
        cases hstep
  | alarm i env =>
      have hstart : ∀ ok : Bool, ok = decide (w.shared.alarms[i]? = some AlarmState.fired) →
          (prepare (setAlarm w i .delivered) { env with ok := ok }).start (.checkinDeadline i)
            (handlerOf 0 "" (.checkinDeadline i)) = some w' → Moves w φ (.alarm i env) w' := by
        intro ok hok hstart
        have ha₁ : sessionProtocol.Abides
            (prepare (setAlarm w i .delivered) { env with ok := ok }) φ :=
          ⟨ha.live, ha.follows, ha.unused⟩
        refine moves_start rfl ha₁ hw ?_ rfl rfl (Or.inr ⟨i, env, rfl, rfl⟩) ?_ hstart
        · exact (view_apply { env with ok := ok } _).trans (by rw [view_setAlarm])
        · rw [directTarget, ← hok]
          rfl
      simp only at hstep
      split at hstep
      · next hi => exact hstart true (by simp [hi]) hstep
      · next hi => exact hstart false (by simp [hi]) hstep
      · cases hstep
  | completeStale i =>
      simp only at hstep
      cases hi : w.stale[i]? with
      | none => simp only [hi] at hstep; cases hstep
      | some g =>
          simp only [hi] at hstep
          cases hstep
          exact Or.inl ⟨_, rfl, fun hx => absurd hx (by decide)⟩

/-! ### Invariants -/

/-- The world abides by the protocol, in phases that satisfy an invariant. -/
def Good (I : (HandlerId → Option Phase) → View → Prop) (w : Manager) : Prop :=
  ∃ φ, sessionProtocol.Abides w φ ∧ I φ (View.of w.shared)

/-- No coroutine loses its name to a later one. -/
theorem step_next {w w' : Manager} {e : Event} (hstep : step w e = some w') :
    w.next ≤ w'.next := by
  have hstart : ∀ {w₁ : Manager} {tag : Rpc} {c : HandlerId → Handler Unit},
      w₁.start tag c = some w' → w₁.next ≤ w'.next := fun h => by
    rw [World.advance_next h]
    exact Nat.le_succ _
  have hresume : ∀ {w₁ : Manager} {h : HandlerId} {reply : (op : Op) → op.Reply},
      w₁.resume h reply = some w' → w₁.next ≤ w'.next := fun h => by
    unfold World.resume at h
    split at h
    · cases h
      exact Nat.le_refl _
    · rw [World.advance_next h]
      exact Nat.le_refl _
  have hblank : ∀ {w₁ : Manager} {h : HandlerId},
      w₁.resumeBlank h = some w' → w₁.next ≤ w'.next := fun h => by
    unfold World.resumeBlank at h
    split at h
    · cases h
      exact Nat.le_refl _
    · rw [World.advance_next h]
      exact Nat.le_of_eq (World.markStale_next ..).symm
  unfold step at hstep
  rw [if_neg (by rw [step_running hstep]; exact Bool.false_ne_true)] at hstep
  split at hstep
  · cases hstep
  · have hnext := hstart hstep
    exact hnext
  · split at hstep
    · cases hstep
    · split at hstep
      · have hnext := hresume hstep
        exact hnext
      · cases hstep
  · split at hstep
    · cases hstep
    · dsimp only at hstep
      split at hstep
      · cases hstep
        exact Nat.le_refl _
      · have hnext := hblank hstep
        exact hnext
  · split at hstep
    · cases hstep
      exact Nat.le_refl _
    · cases hstep
  · split at hstep
    · have hnext := hstart hstep
      exact hnext
    · have hnext := hstart hstep
      exact hnext
    · cases hstep
  · split at hstep
    · cases hstep
    · cases hstep
      exact Nat.le_refl _

theorem runs_running {C : Manager → Event → Manager → Prop} {w w' : Manager}
    (hrun : Runs step C w w') (hw' : w'.halted = none) : w.halted = none := by
  induction hrun with
  | refl => exact hw'
  | tail e _ hstep _ ih => exact ih (step_running hstep)

/-- What every turn keeps, every run keeps as long as the process does not end. -/
theorem runs_good {C : Manager → Event → Manager → Prop}
    {I : (HandlerId → Option Phase) → View → Prop} {w₀ w : Manager} (hrun : Runs step C w₀ w)
    (hlegal : ∀ w e w', C w e w' → Legal e) (h₀ : Good I w₀)
    (hkeep : ∀ {w w' : Manager} {φ φ' e i rpc ph v₀ t}, C w e w' →
      sessionProtocol.Abides w φ → sessionProtocol.Abides w' φ' → I φ (View.of w.shared) →
      Turn w φ e i rpc ph v₀ t φ' (View.of w'.shared) → I φ' (View.of w'.shared)) :
    w.halted = none → Good I w := by
  refine runs_invariant (I := fun w => w.halted = none → Good I w) hrun (fun _ => h₀)
    fun w₁ e w₂ hgood hstep hc hhalt => ?_
  have hw₁ : w₁.halted = none := step_running hstep
  obtain ⟨φ, ha, hI⟩ := hgood hw₁
  obtain ⟨x, hx, -⟩ | ⟨-, φ', ha', ⟨rfl, hv, -⟩ | ⟨i, rpc, ph, v₀, t, hturn⟩⟩ :=
    step_moves (hlegal _ _ _ hc) ha hw₁ hstep
  · rw [hhalt] at hx
    cases hx
  · exact ⟨φ', ha', hv ▸ hI⟩
  · exact ⟨φ', ha', hkeep hc ha ha' hI hturn⟩

/-- No coroutine is in flight in an idle world. -/
theorem good_idle {I : (HandlerId → Option Phase) → View → Prop} {hctx : HandlerContext}
    (hlive : Live hctx) (hI : I (fun _ => none) (View.of hctx)) : Good I (idle hctx) :=
  ⟨fun _ => none, ⟨hlive, fun _ => trivial, fun _ _ => rfl⟩, hI⟩

end ServerManager
