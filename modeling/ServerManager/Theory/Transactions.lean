import ServerManager.Theory.Phases
import ServerManager.Theory.Quiet

/-!
# Inside a Transaction

Between the snapshot that starts it and the record or the rollback that ends
it, a handler makes calls to the machine server and touches little else. This
module says so once for all the functions in between.

Most of them are quiet. The others are `triggerAndWaitCheckin`, which also waits
for a check-in, `pushLeaf`, which also writes the trees of the epoch, and
`executeInput`, which looks at them.

`Transaction` is what inputs and queries have in common: three phases and the
changes allowed to the epoch. A program that is steady in a transaction can be
put anywhere inside it.

## Main definitions

* `Transaction`: A kind of machine transaction.
* `Transaction.Inside`: What holds along a segment of it.
* `advanceTransaction`, `inspectTransaction`: The two kinds.

## Theorems

* `sat_getSession`, `sat_modifySession`, `sat_getEpoch`, `sat_modifyEpoch`: How
  the primitives run in a live session.
* `steady_of_quiet`: Quiet programs are steady in any transaction.
* `sat_triggerAndWaitCheckin`: A trigger and its check-in.
* `steady_rollback`, `steady_getEpoch`: What else stays inside a transaction.
-/

namespace ServerManager

open Coroutine

/-! ### Primitives in a live session -/

section Primitives

variable {s₀ s : HandlerContext} {session : SessionType}

theorem view_setSession (s : HandlerContext) (n : Nat) (session : SessionType) :
    View.of { s with session := some (n, session) } = (View.of s).withSession session := by
  unfold View.of
  cases s.session with
  | none => rfl
  | some entry => rfl

theorem view_withSession {n : Nat} (hs : s.session = some (n, session)) :
    (View.of s).withSession session = View.of s := by
  unfold View.of
  rw [hs]
  rfl

theorem view_epochs {n : Nat} (hs : s.session = some (n, session)) (index : UInt64) :
    (View.of s).epochs index = session.epochs.lookup index := by
  rw [← view_withSession hs]
  rfl

theorem view_setCheckin (s : HandlerContext) (entry : Option CheckinContext)
    (alarms : List AlarmState) :
    View.of { s with waitingCheckin := entry, alarms := alarms } =
      { View.of s with waiting := entry } := by
  unfold View.of
  cases s.session with
  | none => rfl
  | some entry => rfl

theorem view_setQueue (s : HandlerContext) (queue : List (Option HandlerId)) :
    View.of { s with completionQueue := queue } = { View.of s with queue := queue } := by
  unfold View.of
  cases s.session with
  | none => rfl
  | some entry => rfl

theorem view_setSent (s : HandlerContext) (sent : List (Rpc × Answer)) :
    View.of { s with sent := sent } = { View.of s with sent := sent } := by
  unfold View.of
  cases s.session with
  | none => rfl
  | some entry => rfl

theorem view_queue (s : HandlerContext) : (View.of s).queue = s.completionQueue := by
  unfold View.of
  cases s.session with
  | none => rfl
  | some entry => rfl

theorem view_sent (s : HandlerContext) : (View.of s).sent = s.sent := by
  unfold View.of
  cases s.session with
  | none => rfl
  | some entry => rfl

theorem view_waiting (s : HandlerContext) : (View.of s).waiting = s.waitingCheckin := by
  unfold View.of
  cases s.session with
  | none => rfl
  | some entry => rfl

theorem view_newStub (s : HandlerContext) : (View.of s).newStub = s.newStub := by
  unfold View.of
  cases s.session with
  | none => rfl
  | some entry => rfl

/-- Inserting an epoch is a change of the view's map. -/
theorem lookup_insert_epoch (epochs : Epochs) (index : UInt64) (e : EpochType) :
    (fun i => (epochs.insert index e).lookup i) =
      Function.update (fun i => epochs.lookup i) index (some e) := by
  funext i
  by_cases hi : i = index
  · subst hi
    rw [Function.update_self, AList.lookup_insert]
  · rw [Function.update_of_ne hi, AList.lookup_insert_ne hi]

theorem withSession_insert {index : UInt64} {e : EpochType} (v : View) (session : SessionType)
    (f : EpochType → EpochType) (he : session.epochs.lookup index = some e) :
    v.withSession { session with epochs := session.epochs.insert index (f e) } =
      (v.withSession session).mapEpoch index f := by
  unfold View.withSession View.mapEpoch
  simp only [lookup_insert_epoch, he, Option.map_some]

theorem mapEpoch_mapEpoch (v : View) (index : UInt64) (f g : EpochType → EpochType) :
    (v.mapEpoch index f).mapEpoch index g = v.mapEpoch index fun e => g (f e) := by
  unfold View.mapEpoch
  simp only [Function.update_self, Function.update_idem, Option.map_map]
  rfl

theorem mapEpoch_id (v : View) (index : UInt64) : v.mapEpoch index id = v := by
  unfold View.mapEpoch
  rw [Option.map_id, id, Function.update_eq_self]

/-- An epoch that is there is not lost. -/
theorem epoch_there {v : View} {index : UInt64} {e : EpochType} {p : Prop}
    (he : v.epochs index = some e) (hnone : v.epochs index = none) : p := by
  rw [he] at hnone
  cases hnone

variable [Keccak] {h : HandlerId} {rpc : Rpc} {ph : Phase}
variable {E : Exn → Phase → HandlerContext → HandlerContext → Prop}

theorem sat_getSession {Q : SessionType → Phase → HandlerContext → HandlerContext → Prop}
    (hs : s.session = some (0, session)) :
    Prog.Sat sessionProtocol h rpc Q E (getSession 0) ph s₀ s ↔ Q session ph s₀ s := by
  simp only [getSession, Prog.Sat, hs, if_true]

theorem sat_getContext {Q : HandlerContext → Phase → HandlerContext → HandlerContext → Prop} :
    Prog.Sat sessionProtocol h rpc Q E getContext ph s₀ s ↔ Q s ph s₀ s := Iff.rfl

/-- Writing the session, where the view changes by `g`. -/
theorem sat_modifySession {Q : Unit → Phase → HandlerContext → HandlerContext → Prop}
    {f : SessionType → SessionType} {g : View → View} (hs : s.session = some (0, session))
    (hfg : ∀ v : View, v.withSession (f session) = g (v.withSession session))
    (hQ : ∀ s', s'.session = some (0, f session) → View.of s' = g (View.of s) → Q () ph s₀ s') :
    Prog.Sat sessionProtocol h rpc Q E (modifySession 0 f) ph s₀ s := by
  simp only [modifySession, Prog.Sat, hs, if_true]
  exact hQ _ rfl (by rw [view_setSession, hfg, view_withSession hs])

/-- An epoch that is not there any more takes the process down. -/
theorem sat_getEpoch {Q : EpochType → Phase → HandlerContext → HandlerContext → Prop}
    {index : UInt64} (hs : s.session = some (0, session))
    (hlost : (View.of s).epochs index = none → Crashes h rpc ph (View.of s₀) .useAfterFree)
    (hQ : ∀ e, session.epochs.lookup index = some e → Q e ph s₀ s) :
    Prog.Sat sessionProtocol h rpc Q E (getEpoch 0 index) ph s₀ s := by
  simp only [getEpoch, Prog.bind_eq, Prog.sat_bind, sat_getSession hs]
  cases he : session.epochs.lookup index with
  | none => exact hlost ((view_epochs hs index).trans he)
  | some e => exact hQ e he

theorem sat_modifyEpoch {Q : Unit → Phase → HandlerContext → HandlerContext → Prop}
    {index : UInt64} {f : EpochType → EpochType} (hs : s.session = some (0, session))
    (hlost : (View.of s).epochs index = none → Crashes h rpc ph (View.of s₀) .useAfterFree)
    (hQ : ∀ e s', session.epochs.lookup index = some e →
      s'.session = some (0, { session with epochs := session.epochs.insert index (f e) }) →
      View.of s' = (View.of s).mapEpoch index f → Q () ph s₀ s') :
    Prog.Sat sessionProtocol h rpc Q E (modifyEpoch 0 index f) ph s₀ s := by
  simp only [modifyEpoch, Prog.bind_eq, Prog.sat_bind]
  refine sat_getEpoch hs hlost fun e he => ?_
  exact sat_modifySession (g := fun v => v.mapEpoch index f) hs
    (fun v => withSession_insert v session f he) fun s' hs' hv => hQ e s' he hs' hv

/-- Putting a coroutine in the completion queue. -/
theorem sat_enqueue {Q : Unit → Phase → HandlerContext → HandlerContext → Prop}
    {coroutine : Option HandlerId} (hQ : ∀ s', s'.session = s.session →
      View.of s' = { View.of s with queue := (View.of s).queue ++ [coroutine] } → Q () ph s₀ s') :
    Prog.Sat sessionProtocol h rpc Q E (enqueueCompletionQueue coroutine) ph s₀ s := by
  refine hQ _ rfl ?_
  rw [view_queue]
  exact view_setQueue s _

theorem sat_handOver {Q : Unit → Phase → HandlerContext → HandlerContext → Prop}
    {index : UInt64} {q : QueryType} (hs : s.session = some (0, session))
    (hthere : (View.of s).epochs index ≠ none)
    (hQ : ∀ s', Live s' → View.of s' = { (View.of s).mapEpoch index (setCoroutine h) with
      queue := (View.of s).queue ++ [q.coroutine] } → Q () ph s₀ s') :
    Prog.Sat sessionProtocol h rpc Q E (handOver h 0 index q) ph s₀ s := by
  simp only [handOver, Prog.bind_eq, Prog.sat_bind]
  refine sat_enqueue fun s₁ hs₁ hv₁ => sat_modifyEpoch (hs₁.trans hs) (fun hnone => ?_)
    fun e s₂ _ hs₂ hv₂ => ?_
  · rw [hv₁] at hnone
    exact absurd hnone hthere
  refine hQ s₂ ⟨_, hs₂⟩ ?_
  rw [hv₂, hv₁]
  rfl

/-- Sending an answer, and parking until it is acknowledged. -/
theorem sat_finish {Q : Unit → Phase → HandlerContext → HandlerContext → Prop}
    {response : Response} (ph' : Phase) (hs : Live s)
    (hat : PhaseAt rpc ph' (.finish response))
    (hstep : Trans h rpc ph (View.of s₀) (some ph') ((View.of s).answer rpc (.finish response)))
    (hQ : ∀ s₁, Live s₁ → Q () ph' s₁ s₁) :
    Prog.Sat sessionProtocol h rpc Q E (finish rpc response) ph s₀ s := by
  refine ⟨ph', hat, ⟨hs, ?_⟩, fun _ s₁ hs₁ => hQ s₁ hs₁⟩
  convert hstep using 1
  unfold View.answer
  rw [view_sent]
  exact view_setSent s _

theorem sat_finishWithError {Q : Unit → Phase → HandlerContext → HandlerContext → Prop}
    {status : Status} (ph' : Phase) (hs : Live s)
    (hat : PhaseAt rpc ph' (.finishWithError status))
    (hstep : Trans h rpc ph (View.of s₀) (some ph')
      ((View.of s).answer rpc (.finishWithError status)))
    (hQ : ∀ s₁, Live s₁ → Q () ph' s₁ s₁) :
    Prog.Sat sessionProtocol h rpc Q E (finishWithError rpc status) ph s₀ s := by
  refine ⟨ph', hat, ⟨hs, ?_⟩, fun _ s₁ hs₁ => hQ s₁ hs₁⟩
  convert hstep using 1
  unfold View.answer
  rw [view_sent]
  exact view_setSent s _

end Primitives

/-! ### Transactions -/

section Transaction

variable [Keccak]

/-- What the transactions of inputs and of queries have in common. -/
structure Transaction (h : HandlerId) (rpc : Rpc) (index : UInt64) where
  phase : Stage → Phase
  /-- The changes to the epoch a segment may make. -/
  Change : (EpochType → EpochType) → Prop
  change_id : Change id
  trans : ∀ {v stage stage' f entry}, Change f → Waits h stage v.waiting stage' entry →
    Trans h rpc (phase stage) v (some (phase stage')) { v.mapEpoch index f with waiting := entry }
  crash : ∀ {v stage}, settled stage v.waiting ≠ none →
    Crashes h rpc (phase stage) v .alreadyWaitingCheckin
  epoch : ∀ stage, (phase stage).epoch = some index
  at_snapshot : PhaseAt rpc (phase .snapshot) (.call .snapshot)
  at_calling : ∀ {c : MachineCall}, c ≠ .snapshot → PhaseAt rpc (phase .calling) (.call c)
  at_waiting : PhaseAt rpc (phase .waiting) .checkin

/-- The transaction of an input. -/
def advanceTransaction (h : HandlerId) (request : AdvanceStateRequest) (index number : UInt64) :
    Transaction h (.advanceState request) index where
  phase := .advancing index number
  Change := TreeChange
  change_id _ := rfl
  trans hf hw := .advance hf hw
  crash hw := .advancing hw
  epoch _ := rfl
  at_snapshot := .advanceSnapshot
  at_calling hc := .advanceCall hc
  at_waiting := .advanceCheckin

/-- The transaction of a query. -/
def inspectTransaction (h : HandlerId) (payload : Bytes) (index : UInt64)
    (coroutine : Option HandlerId) : Transaction h (.inspectState payload) index where
  phase := .inspecting index coroutine
  Change := QueryChange
  change_id _ := ⟨rfl, rfl⟩
  trans hf hw := .inspect hf hw
  crash hw := .inspecting hw
  epoch _ := rfl
  at_snapshot := .inspectSnapshot
  at_calling hc := .inspectCall hc
  at_waiting := .inspectCheckin

namespace Transaction

variable {h : HandlerId} {rpc : Rpc} {index : UInt64} (T : Transaction h rpc index)

/-- A segment of the transaction that began in a stage: the epoch changed as it
    may, and the check-in entry is settled. -/
def Along (stage : Stage) (s₀ s : HandlerContext) : Prop :=
  ∃ f, T.Change f ∧ Live s ∧ View.of s = { (View.of s₀).mapEpoch index f with
    waiting := settled stage (View.of s₀).waiting }

/-- What holds along a segment of the transaction that has its stub. -/
def Inside (ph : Phase) (s₀ s : HandlerContext) : Prop :=
  ∃ stage, ph = T.phase stage ∧ ¬ StubLost (View.of s₀) stage ∧ T.Along stage s₀ s

/-- What holds when a segment of the transaction throws: the exception taints
    the session, or no stub could be made. -/
def Raised (e : Exn) (ph : Phase) (s₀ s : HandlerContext) : Prop :=
  (T.Inside ph s₀ s ∧ Fails 0 e) ∨
    ∃ stage status, ph = T.phase stage ∧ StubLost (View.of s₀) stage ∧ T.Along stage s₀ s ∧
      e = .finishErrorYieldNone status

/-- A segment that begins in a call has changed nothing yet. -/
theorem inside_refl {s : HandlerContext} {stage : Stage} (hstage : stage ≠ .waiting)
    (hs : Live s) : T.Inside (T.phase stage) s s := by
  refine ⟨stage, rfl, fun hlost => hstage hlost.waits, id, T.change_id, hs, ?_⟩
  rw [mapEpoch_id]
  cases stage with
  | snapshot => rfl
  | calling => rfl
  | waiting => exact absurd rfl hstage

variable {T}

/-- Parking in a call inside a transaction. -/
theorem Inside.park {ph : Phase} {s₀ s : HandlerContext} (hin : T.Inside ph s₀ s) :
    Live s ∧ Trans h rpc ph (View.of s₀) (some (T.phase .calling)) (View.of s) := by
  rcases hin with ⟨stage, rfl, -, f, hf, hs, hv⟩
  rw [hv]
  exact ⟨hs, T.trans hf rfl⟩

/-- An epoch that is not there now was not there when the segment began. -/
theorem Inside.lost {ph : Phase} {s₀ s : HandlerContext} (hin : T.Inside ph s₀ s)
    (hnone : (View.of s).epochs index = none) :
    Crashes h rpc ph (View.of s₀) .useAfterFree := by
  rcases hin with ⟨stage, rfl, -, f, hf, hs, hv⟩
  refine .lost (.epoch (T.epoch stage) ?_)
  rw [hv] at hnone
  simpa only [View.mapEpoch, Function.update_self, Option.map_eq_none_iff] using hnone

theorem Raised.live {e : Exn} {ph : Phase} {s₀ s : HandlerContext}
    (hraised : T.Raised e ph s₀ s) : Live s := by
  rcases hraised with ⟨hin, -⟩ | ⟨stage, status, rfl, -, ⟨f, -, hs, -⟩, -⟩
  · exact hin.park.1
  · exact hs

end Transaction

open Transaction

variable {h : HandlerId} {rpc : Rpc} {index : UInt64} {T : Transaction h rpc index} {α : Type}

/-- Quiet programs are steady in any transaction. -/
theorem steady_of_quiet {c : Handler α} (hc : Quiet 0 c) :
    Prog.Steady sessionProtocol h rpc T.Inside T.Raised c := by
  refine Prog.steady_of_only hc ?_ ?_ ?_
  · rintro op ph s₀ s ⟨call, rfl, hcall, -⟩ hin
    refine ⟨T.phase .calling, T.at_calling ?_, hin.park, fun s₁ hs₁ => T.inside_refl (by decide) hs₁⟩
    rintro rfl
    cases hcall
  · exact fun e ph s₀ s he hin => Or.inl ⟨hin, he⟩
  · rintro x ph s₀ s hx -
    rcases hx with rfl | ⟨rfl, -⟩
    · exact Crashes.other (by decide) (by decide)
    · exact Crashes.other (by decide) (by decide)

/-- Reading the epoch inside a transaction. -/
theorem steady_getEpoch :
    Prog.Steady sessionProtocol h rpc T.Inside T.Raised (getEpoch 0 index) := by
  intro ph s₀ s hin
  rcases hin.park.1 with ⟨session, hs⟩
  exact sat_getEpoch hs hin.lost fun _ _ => hin

/-- The entry is erased once the check-in arrived, whatever it says. -/
theorem sat_eraseCheckin {s : HandlerContext} {cctx : CheckinContext}
    {Q : Unit → Phase → HandlerContext → HandlerContext → Prop} (hs : Live s)
    (hQ : ∀ s', T.Along .waiting s s' → s'.newStub = s.newStub →
      Q () (T.phase .waiting) s s') :
    Prog.Sat sessionProtocol h rpc Q T.Raised (eraseCheckin cctx) (T.phase .waiting) s s := by
  refine hQ _ ⟨id, T.change_id, hs, ?_⟩ rfl
  rw [mapEpoch_id]
  exact view_setCheckin s none _

theorem sat_checkServerStub {s₀ s : HandlerContext} {cctx : CheckinContext}
    (hwait : s₀.waitingCheckin = some cctx) (hstatus : cctx.status = some true)
    (halong : T.Along .waiting s₀ s) (hstub : s.newStub = s₀.newStub) :
    Prog.Sat sessionProtocol h rpc (fun _ => T.Inside) T.Raised (checkServerStub 0)
      (T.phase .waiting) s₀ s := by
  rcases halong with ⟨f, hf, ⟨session, hs⟩, hv⟩
  simp only [checkServerStub, Prog.bind_eq, Prog.sat_bind, sat_getContext]
  refine sat_modifySession (g := id) hs (fun v => rfl) fun s' hs' hv' => ?_
  have halong : T.Along .waiting s₀ s' := ⟨f, hf, ⟨_, hs'⟩, hv'.trans hv⟩
  split
  · rename_i hnull
    refine Or.inr ⟨.waiting, _, rfl, ⟨rfl, ?_, cctx, (view_waiting s₀).trans hwait, hstatus⟩,
      halong, rfl⟩
    rw [view_newStub, ← hstub]
    simpa using hnull
  · rename_i hmade
    refine ⟨.waiting, rfl, fun hlost => hmade ?_, halong⟩
    have hnull := hlost.stub
    rw [view_newStub, ← hstub] at hnull
    rw [hnull]
    rfl

/-- A call that starts a transaction or continues it: the segment ends in the
    call, and the next one begins with the response. -/
theorem sat_callOrTaint {c : MachineCall} {deadline : String} {stage : Stage} {ph : Phase}
    {s₀ s : HandlerContext} (hstage : stage ≠ .waiting)
    (hat : PhaseAt rpc (T.phase stage) (.call c)) (hs : Live s)
    (hgo : Trans h rpc ph (View.of s₀) (some (T.phase stage)) (View.of s)) :
    Prog.Sat sessionProtocol h rpc (fun _ ph s₀ s => ph = T.phase stage ∧ s₀ = s ∧ Live s)
      T.Raised (callOrTaint 0 c deadline) ph s₀ s := by
  rcases hs with ⟨session, hs⟩
  simp only [callOrTaint, call, Prog.bind_eq, Prog.sat_bind, sat_getSession hs]
  split
  · refine ⟨T.phase stage, hat, ⟨⟨session, hs⟩, hgo⟩, fun reply s₁ hs₁ => ?_⟩
    simp only [Prog.Sat, checkStatusOrTaint]
    split
    · exact ⟨rfl, rfl, hs₁⟩
    · exact Or.inl ⟨T.inside_refl hstage hs₁, .taint _⟩
  · exact Crashes.other (x := .nullStub) (by decide) (by decide)

/-- A trigger and the check-in it causes. -/
theorem sat_triggerAndWaitCheckin {trigger : Handler Unit} (stage : Stage) {ph : Phase}
    {s₀ s : HandlerContext} (hstage : stage ≠ .waiting) (hs : Live s)
    (hgo : (View.of s).waiting = none → Prog.Sat sessionProtocol h rpc
      (fun _ ph s₀ s => ph = T.phase stage ∧ s₀ = s ∧ Live s) T.Raised trigger ph s₀ s)
    (hcrash : (View.of s).waiting ≠ none →
      Crashes h rpc ph (View.of s₀) .alreadyWaitingCheckin) :
    Prog.Sat sessionProtocol h rpc (fun _ => T.Inside) T.Raised
      (triggerAndWaitCheckin h 0 trigger) ph s₀ s := by
  rcases hs with ⟨session, hs⟩
  have hw := view_waiting s
  simp only [triggerAndWaitCheckin, Prog.bind_eq, Prog.sat_bind, sat_getSession hs,
    sat_getContext]
  cases hwait : s.waitingCheckin with
  | some cctx =>
      exact hcrash (by rw [hw, hwait]; exact Option.some_ne_none _)
  | none =>
      simp only [Option.isSome_none, Bool.false_eq_true, if_false, Prog.sat_bind]
      refine Prog.sat_mono (hgo (hw.trans hwait)) ?_ (fun _ _ _ _ he => he)
      rintro _ _ s₁ _ ⟨rfl, rfl, session₁, hs₁⟩
      -- the response to the trigger arrived
      simp only [sat_getSession hs₁, registerCheckin, newCheckinDeadlineHandler, Prog.modify,
        Prog.Sat, Prog.bind_eq, Prog.sat_bind, sat_getContext]
      refine ⟨T.phase .waiting, T.at_waiting, ⟨⟨session₁, hs₁⟩, ?_⟩, ?_⟩
      · have hwaits : Waits h stage (View.of s₁).waiting .waiting
            (some { coroutine := h, alarm := s₁.alarms.length, status := none }) :=
          ⟨hstage, s₁.alarms.length, rfl⟩
        have hpark := T.trans T.change_id hwaits
        rw [mapEpoch_id] at hpark
        convert hpark using 1
        exact view_setCheckin s₁ _ _
      · rintro r s₂ ⟨session₂, hs₂⟩
        -- the check-in or the deadline resumed the handler
        simp only [sat_getSession hs₂]
        cases hw₂ : s₂.waitingCheckin with
        | none => exact Crashes.other (x := .checkinContextErased) (by decide) (by decide)
        | some cctx =>
            dsimp only
            cases hst : cctx.status with
            | none => exact Crashes.other (x := .checkinStatusNotSet) (by decide) (by decide)
            | some b =>
                cases b with
                | false =>
                    refine Prog.sat_bind.2 (sat_eraseCheckin ⟨_, hs₂⟩ fun s₃ halong _ => ?_)
                    refine Or.inl ⟨⟨.waiting, rfl, fun hlost => ?_, halong⟩, .taint _⟩
                    rcases hlost.checked with ⟨cctx', hwait', hstatus⟩
                    rw [view_waiting, hw₂] at hwait'
                    cases hwait'
                    rw [hst] at hstatus
                    cases hstatus
                | true =>
                    refine Prog.sat_bind.2 (sat_eraseCheckin ⟨_, hs₂⟩ fun s₃ halong hstub => ?_)
                    exact sat_checkServerStub hw₂ hst halong hstub

/-- A rollback inside a transaction. -/
theorem steady_rollback :
    Prog.Steady sessionProtocol h rpc T.Inside T.Raised
      (triggerAndWaitCheckin h 0 (rollback 0)) := by
  intro ph s₀ s hin
  refine sat_triggerAndWaitCheckin .calling (by decide) hin.park.1 ?_ ?_
  · intro _
    exact sat_callOrTaint (c := .rollback) (by decide) (T.at_calling (by simp)) hin.park.1 hin.park.2
  · intro hw
    rcases hin with ⟨stage, rfl, -, f, hf, hs, hv⟩
    rw [hv] at hw
    exact T.crash hw

/-! ### Running an input -/

theorem steady_runFittingInput (fuel : Nat) (epochInputIndex : Nat) (input : InputType)
    (run : InputRun) :
    Prog.Steady sessionProtocol h rpc T.Inside T.Raised
      (runFittingInput fuel 0 index epochInputIndex input run) := by
  have hrun := fun mcycleIncrement maxMcycle startTime maxDeadline n run =>
    steady_of_quiet (T := T)
      (quiet_runInput fuel mcycleIncrement maxMcycle startTime maxDeadline n run)
  refine Prog.steady_bind (steady_of_quiet quiet_clearMemoryRanges) fun _ =>
    Prog.steady_bind (steady_of_quiet quiet_getSession) fun _ =>
    Prog.steady_bind (steady_of_quiet (quiet_writeEvmAbiString _ _)) fun _ =>
    Prog.steady_bind (steady_of_quiet quiet_getSession) fun _ =>
    Prog.steady_bind (steady_of_quiet (quiet_writeMemoryRange _ _)) fun _ =>
    Prog.steady_bind (steady_of_quiet quiet_resetIflagsY) fun _ =>
    Prog.steady_bind (steady_of_quiet (quiet_checkHtifYieldAckData _)) fun _ =>
    Prog.steady_bind (steady_of_quiet quiet_getSession) fun _ =>
    Prog.steady_bind (steady_of_quiet quiet_getContext) fun _ =>
    Prog.steady_bind (hrun _ _ _ _ _ _) fun _ =>
    Prog.steady_bind steady_getEpoch fun e => steady_of_quiet ?_
  dsimp only
  by_cases hv : e.vouchersTree.size ≠ epochInputIndex
  · rw [if_pos hv]
    exact fun _ => Fails.taint _
  · rw [if_neg hv]
    split
    · exact quiet_bind (quiet_throwTaint _ _) fun _ => quiet_pure _
    · exact quiet_pure _

theorem steady_executeInput (fuel : Nat) (epochInputIndex : Nat) (input : InputType) :
    Prog.Steady sessionProtocol h rpc T.Inside T.Raised
      (executeInput fuel 0 index epochInputIndex input) := by
  refine Prog.steady_bind (steady_of_quiet quiet_getSession) fun session => ?_
  dsimp only
  split
  · exact steady_runFittingInput _ _ _ _
  · exact steady_of_quiet (quiet_pure _)

end Transaction

end ServerManager
