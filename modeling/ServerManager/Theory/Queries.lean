import ServerManager.Theory.Scopes

/-!
# InspectState Keeps to the Protocol

InspectState holds the session lock from its first segment to its last. With
inputs in the queue it parks until the handler that processes them hands the
machine over, and then it has a coroutine to resume on exit; without inputs it
starts at once and has none.

The body is the same in both cases, so it is proved once, from an entry
condition that says what the beginning of the segment allows: starting the
transaction, answering without one, and refusing a session that was tainted in
the meantime.

## Main definitions

* `mapQuery`: A change of the query, as a change of the epoch.
* `QueryEntry`: The entry condition of the body.
* `InspectCaught`: What holds when the try block throws.

## Theorems

* `steady_runQuery`: The loop over the stops of the machine.
* `sat_processPendingQuery`: One query.
* `keeps_inspectState`: The handler.
-/

namespace ServerManager

open Coroutine Transaction

/-! ### Changes of the query -/

/-- A change of the query, as a change of the epoch. -/
def mapQuery (g : QueryType → QueryType) (e : EpochType) : EpochType :=
  { e with pendingQuery := e.pendingQuery.map g }

theorem queryChange_mapQuery {g : QueryType → QueryType}
    (hg : ∀ q, (g q).coroutine = q.coroutine) : QueryChange (mapQuery g) := by
  refine fun e => ⟨rfl, ?_⟩
  unfold mapQuery
  cases e.pendingQuery with
  | none => rfl
  | some q => exact congrArg some (hg q)

theorem queryChange_comp {f g : EpochType → EpochType} (hf : QueryChange f)
    (hg : QueryChange g) : QueryChange fun e => g (f e) := by
  intro e
  refine ⟨?_, (hg (f e)).2.trans (hf e).2⟩
  calc g (f e) = { f e with pendingQuery := (g (f e)).pendingQuery } := (hg (f e)).1
    _ = { e with pendingQuery := (g (f e)).pendingQuery } := by rw [(hf e).1]

theorem clearQuery_queryChange {f : EpochType → EpochType} (hf : QueryChange f) (e : EpochType) :
    clearQuery (f e) = clearQuery e := by
  unfold clearQuery
  rw [(hf e).1]

/-- A change of the query keeps a query that is there. -/
theorem queryChange_some {f : EpochType → EpochType} (hf : QueryChange f) {e : EpochType}
    {q : QueryType} (hq : e.pendingQuery = some q) :
    ∃ q', (f e).pendingQuery = some q' ∧ q'.coroutine = q.coroutine := by
  have hco := (hf e).2
  rw [hq] at hco
  simpa only [Option.map_some, Option.map_eq_some_iff] using hco

/-- A query that is there after a change of it was there before. -/
theorem queryChange_of_some {f : EpochType → EpochType} (hf : QueryChange f) {e : EpochType}
    {q : QueryType} (hq : (f e).pendingQuery = some q) : ∃ q', e.pendingQuery = some q' := by
  have hco := (hf e).2
  rw [hq] at hco
  cases he : e.pendingQuery with
  | none => rw [he] at hco; cases hco
  | some q' => exact ⟨q', rfl⟩

/-- Only what happens to the epoch that is there counts. -/
theorem mapEpoch_congr {v : View} {index : UInt64} {e : EpochType} {f g : EpochType → EpochType}
    (he : v.epochs index = some e) (hfg : f e = g e) : v.mapEpoch index f = v.mapEpoch index g := by
  unfold View.mapEpoch
  rw [he, Option.map_some, Option.map_some, hfg]

variable [Keccak] {h : HandlerId} {rpc : Rpc} {payload : Bytes} {index : UInt64}
variable {coroutine : Option HandlerId}

/-- There is no query in the epoch. -/
inductive QueryLost (v : View) (index : UInt64) : Prop
  | epoch (he : v.epochs index = none)
  | query {e : EpochType} (he : v.epochs index = some e) (hq : e.pendingQuery = none)

omit [Keccak] in
theorem query_there {v : View} {e : EpochType} {q : QueryType} {p : Prop}
    (he : v.epochs index = some e) (hq : e.pendingQuery = some q) (hlost : QueryLost v index) :
    p := by
  cases hlost with
  | epoch hnone => exact epoch_there he hnone
  | query he' hq' =>
      rw [he] at he'
      cases he'
      rw [hq] at hq'
      cases hq'

omit [Keccak] in
/-- A change of the query does not lose it. -/
theorem query_mapEpoch {v : View} {e : EpochType} {q : QueryType} {f : EpochType → EpochType}
    (hf : QueryChange f) (he : v.epochs index = some e) (hq : e.pendingQuery = some q) :
    ∃ e' q', (v.mapEpoch index f).epochs index = some e' ∧ e'.pendingQuery = some q' := by
  rcases queryChange_some hf hq with ⟨q', hq', -⟩
  refine ⟨f e, q', ?_, hq'⟩
  simp only [View.mapEpoch, Function.update_self, he, Option.map_some]

/-- A query that is not there now was not there when the segment began. -/
theorem lost_of_inside {ph : Phase} {s₀ s : HandlerContext}
    (hin : (inspectTransaction h payload index coroutine).Inside ph s₀ s)
    (hlost : QueryLost (View.of s) index) :
    Crashes h (.inspectState payload) ph (View.of s₀) .useAfterFree := by
  cases hlost with
  | epoch hnone => exact hin.lost hnone
  | query he hq =>
      rcases hin with ⟨stage, rfl, -, f, hf, -, hv⟩
      rcases (by simpa only [hv, View.mapEpoch, Function.update_self, Option.map_eq_some_iff]
        using he : ∃ e₀, (View.of s₀).epochs index = some e₀ ∧ f e₀ = _) with ⟨e₀, he₀, rfl⟩
      have hco := (hf e₀).2
      rw [hq] at hco
      exact .lost (.query rfl rfl he₀ (Option.map_eq_none_iff.1 hco.symm))

/-- A query that is not there any more takes the process down. -/
theorem sat_getQuery {Q : QueryType → Phase → HandlerContext → HandlerContext → Prop}
    {E : Exn → Phase → HandlerContext → HandlerContext → Prop} {ph : Phase}
    {s₀ s : HandlerContext} (hs : Live s)
    (hlost : QueryLost (View.of s) index → Crashes h rpc ph (View.of s₀) .useAfterFree)
    (hQ : ∀ e q, (View.of s).epochs index = some e → e.pendingQuery = some q → Q q ph s₀ s) :
    Prog.Sat sessionProtocol h rpc Q E (getQuery 0 index) ph s₀ s := by
  obtain ⟨session, hsession⟩ := hs
  simp only [getQuery, Prog.bind_eq, Prog.sat_bind]
  refine sat_getEpoch hsession (fun hnone => hlost (.epoch hnone)) fun e he => ?_
  cases hq : e.pendingQuery with
  | none => exact hlost (.query ((view_epochs hsession index).trans he) hq)
  | some q => exact hQ e q ((view_epochs hsession index).trans he) hq

theorem sat_modifyQuery {Q : Unit → Phase → HandlerContext → HandlerContext → Prop}
    {E : Exn → Phase → HandlerContext → HandlerContext → Prop} {ph : Phase}
    {s₀ s : HandlerContext} {g : QueryType → QueryType} (hs : Live s)
    (hlost : QueryLost (View.of s) index → Crashes h rpc ph (View.of s₀) .useAfterFree)
    (hQ : ∀ s', Live s' → View.of s' = (View.of s).mapEpoch index (mapQuery g) → Q () ph s₀ s') :
    Prog.Sat sessionProtocol h rpc Q E (modifyQuery 0 index g) ph s₀ s := by
  simp only [modifyQuery, Prog.bind_eq, Prog.sat_bind]
  refine sat_getQuery hs hlost fun e q he hq => ?_
  obtain ⟨session, hsession⟩ := hs
  refine sat_modifyEpoch hsession (epoch_there he) fun e' s' _ hs' hv' => hQ s' ⟨_, hs'⟩ (hv'.trans ?_)
  refine mapEpoch_congr he ?_
  rw [mapQuery, hq, Option.map_some]

/-! ### The transaction -/

theorem steady_modifyQuery {g : QueryType → QueryType}
    (hg : ∀ q, (g q).coroutine = q.coroutine) :
    Prog.Steady sessionProtocol h (.inspectState payload)
      (inspectTransaction h payload index coroutine).Inside
      (inspectTransaction h payload index coroutine).Raised (modifyQuery 0 index g) := by
  intro ph s₀ s hin
  have hlost := lost_of_inside hin
  rcases hin with ⟨stage, rfl, hmade, f, hf, hs, hv⟩
  refine sat_modifyQuery hs hlost fun s' hs' hv' => ?_
  refine ⟨stage, rfl, hmade, _, queryChange_comp hf (queryChange_mapQuery hg), hs', ?_⟩
  rw [hv', hv, ← mapEpoch_mapEpoch _ _ f (mapQuery g)]
  rfl

theorem steady_runQuery (fuel : Nat) (mcycleIncrement maxMcycle : UInt64) (startTime : Int)
    (maxDeadline : UInt64) (n : Nat) (currentMcycle : UInt64) :
    Prog.Steady sessionProtocol h (.inspectState payload)
      (inspectTransaction h payload index coroutine).Inside
      (inspectTransaction h payload index coroutine).Raised
      (runQuery fuel 0 index mcycleIncrement maxMcycle startTime maxDeadline n currentMcycle) := by
  induction n generalizing currentMcycle with
  | zero => exact steady_of_quiet quiet_spin
  | succ n ih =>
      refine Prog.steady_bind (steady_of_quiet (quiet_runMachine _ _ _ _ _ _)) fun r => ?_
      cases r with
      | none => exact steady_modifyQuery fun _ => rfl
      | some r =>
          dsimp only
          -- one case for each way the machine can stop
          split
          · exact steady_modifyQuery fun _ => rfl
          split
          · exact steady_modifyQuery fun _ => rfl
          split
          · split
            · exact steady_modifyQuery fun _ => rfl
            split
            · exact steady_modifyQuery fun _ => rfl
            split
            · exact Prog.steady_bind (steady_modifyQuery fun _ => rfl) fun _ =>
                Prog.steady_bind (steady_of_quiet quiet_readTxPayload) fun _ =>
                steady_modifyQuery fun _ => rfl
            · exact steady_of_quiet (quiet_throwTaint _ _)
          split
          · exact steady_of_quiet (quiet_throwTaint _ _)
          split
          · exact Prog.steady_bind (steady_of_quiet quiet_readReport) fun _ =>
              Prog.steady_bind (steady_modifyQuery fun _ => rfl) fun _ => ih _
          · exact ih _

theorem steady_getQuery :
    Prog.Steady sessionProtocol h (.inspectState payload)
      (inspectTransaction h payload index coroutine).Inside
      (inspectTransaction h payload index coroutine).Raised (getQuery 0 index) :=
  fun _ _ _ hin => sat_getQuery hin.park.1 (lost_of_inside hin) fun _ _ _ _ => hin

theorem steady_executeQuery (fuel : Nat) :
    Prog.Steady sessionProtocol h (.inspectState payload)
      (inspectTransaction h payload index coroutine).Inside
      (inspectTransaction h payload index coroutine).Raised (executeQuery fuel 0 index) :=
  Prog.steady_bind (steady_of_quiet quiet_clearRxBuffer) fun _ =>
    Prog.steady_bind (steady_of_quiet quiet_getSession) fun _ =>
    Prog.steady_bind steady_getQuery fun _ =>
    Prog.steady_bind (steady_of_quiet (quiet_writeEvmAbiString _ _)) fun _ =>
    Prog.steady_bind (steady_of_quiet quiet_resetIflagsY) fun _ =>
    Prog.steady_bind (steady_of_quiet (quiet_setHtifYieldAckData _)) fun _ =>
    Prog.steady_bind (steady_of_quiet quiet_getSession) fun _ =>
    Prog.steady_bind (steady_of_quiet quiet_getContext) fun _ =>
    Prog.steady_bind (steady_modifyQuery fun _ => rfl) fun _ => steady_runQuery _ _ _ _ _ _ _

/-- What the beginning of the segment allows when the body of InspectState is
    entered: starting the transaction, answering without one, and refusing a
    tainted session. -/
structure QueryEntry (h : HandlerId) (payload : Bytes) (index : UInt64)
    (coroutine : Option HandlerId) (ph : Phase) (s₀ s : HandlerContext) : Prop where
  live : Live s
  query : ∃ e q, (View.of s).epochs index = some e ∧ e.pendingQuery = some q
  start : (View.of s).tainted = false → ∀ f, QueryChange f →
    Starts h (.inspectState payload) ph (View.of s₀) (.inspecting index coroutine .snapshot)
      ((View.of s).mapEpoch index f)
  quick : (View.of s).tainted = false → ∀ response,
    Trans h (.inspectState payload) ph (View.of s₀) (some (.inspected coroutine))
      (((View.of s).mapEpoch index clearQuery).answer (.inspectState payload) (.finish response))
  refuse : (View.of s).tainted = true → ∀ status,
    Trans h (.inspectState payload) ph (View.of s₀) (some .refused)
      ({ (View.of s).wake coroutine with lock := false }.answer (.inspectState payload)
        (.finishWithError status))

/-- What holds when `process_pending_query` returns: the payload was too long
    and nothing was waited for, or the query was run. -/
def Queried (h : HandlerId) (payload : Bytes) (index : UInt64) (coroutine : Option HandlerId)
    (ph : Phase) (s₀ s : HandlerContext) (ph' : Phase) (s₀' s' : HandlerContext) : Prop :=
  (ph' = ph ∧ s₀' = s₀ ∧ Live s' ∧
    ∃ f, QueryChange f ∧ View.of s' = (View.of s).mapEpoch index f) ∨
  (inspectTransaction h payload index coroutine).Inside ph' s₀' s'

/-- A query that is not there after that was not there when the segment began. -/
theorem Queried.lost {ph ph' : Phase} {s₀ s s₀' s' : HandlerContext}
    (hqueried : Queried h payload index coroutine ph s₀ s ph' s₀' s')
    (hthere : ∃ e q, (View.of s).epochs index = some e ∧ e.pendingQuery = some q)
    (hlost : QueryLost (View.of s') index) :
    Crashes h (.inspectState payload) ph' (View.of s₀') .useAfterFree := by
  rcases hqueried with ⟨rfl, rfl, -, f, hf, hv⟩ | hin
  · rcases hthere with ⟨e, q, he, hq⟩
    rcases query_mapEpoch hf he hq with ⟨e', q', he', hq'⟩
    rw [hv] at hlost
    exact query_there he' hq' hlost
  · exact lost_of_inside hin hlost

theorem sat_processPendingQuery (fuel : Nat) {ph : Phase} {s₀ s : HandlerContext}
    (hentry : QueryEntry h payload index coroutine ph s₀ s)
    (htaint : (View.of s).tainted = false) :
    Prog.Sat sessionProtocol h (.inspectState payload)
      (fun _ => Queried h payload index coroutine ph s₀ s)
      (inspectTransaction h payload index coroutine).Raised
      (processPendingQuery fuel h 0 index) ph s₀ s := by
  obtain ⟨session, hsession⟩ := hentry.live
  obtain ⟨e₀, q₀, he₀, hq₀⟩ := hentry.query
  simp only [processPendingQuery, Prog.bind_eq, Prog.sat_bind]
  refine sat_getEpoch hsession (epoch_there he₀) fun e he => ?_
  have hee : e = e₀ := by
    rw [view_epochs hsession, he] at he₀
    exact Option.some.inj he₀
  subst hee
  rw [if_neg (by rw [hq₀]; exact Bool.false_ne_true)]
  simp only [Prog.sat_bind, sat_getSession hsession]
  refine sat_modifyQuery hentry.live (query_there he₀ hq₀) fun s₁ hs₁ hv₁ => ?_
  have hchange₁ : QueryChange
      (mapQuery fun q => { q with processedInputCount := session.processedInputCount }) :=
    queryChange_mapQuery fun _ => rfl
  rcases query_mapEpoch hchange₁ he₀ hq₀ with ⟨e₁, q₁, he₁, hq₁⟩
  rw [← hv₁] at he₁
  refine sat_getQuery hs₁ (query_there he₁ hq₁) fun _ _ _ _ => ?_
  split
  · -- the payload does not fit the receive buffer
    rw [Prog.sat_bind]
    have hchange₂ : QueryChange
        (mapQuery fun q => { q with status := .payloadLengthLimitExceeded }) :=
      queryChange_mapQuery fun _ => rfl
    refine sat_modifyQuery hs₁ (query_there he₁ hq₁) fun s₂ hs₂ hv₂ => Or.inl ⟨rfl, rfl, hs₂, _,
      queryChange_comp hchange₁ hchange₂, ?_⟩
    rw [hv₂, hv₁, mapEpoch_mapEpoch]
  · rw [Prog.sat_bind]
    have hstart := hentry.start htaint _ hchange₁
    rw [← hv₁] at hstart
    refine Prog.sat_mono (sat_triggerAndWaitCheckin
      (T := inspectTransaction h payload index coroutine) .snapshot (by decide) hs₁
      (fun hw => sat_callOrTaint (c := .snapshot) (by decide) .inspectSnapshot hs₁ (.start hstart hw))
      fun hw => .start hstart hw) ?_ fun _ _ _ _ he => he
    intro _ ph₂ s₂ s₂' hin₂
    rw [Prog.sat_bind]
    refine Prog.sat_mono (steady_executeQuery fuel _ _ _ hin₂) ?_ fun _ _ _ _ he => he
    intro _ ph₃ s₃ s₃' hin₃
    exact Prog.sat_mono (steady_rollback _ _ _ hin₃) (fun _ _ _ _ hin => Or.inr hin)
      fun _ _ _ _ he => he

/-! ### The handler -/

/-- What holds when the try block of InspectState throws: the error is answered,
    and a session that is at fault is tainted. -/
def InspectCaught (h : HandlerId) (payload : Bytes) (e : Exn) (ph : Phase)
    (s₀ s : HandlerContext) : Prop :=
  Live s ∧ match e with
    | .finishErrorYieldNone _ => ∀ status, Trans h (.inspectState payload) ph (View.of s₀)
        (some .refused) ((View.of s).answer (.inspectState payload) (.finishWithError status))
    | .taintSession ref _ => ref = 0 ∧ ∀ status, Trans h (.inspectState payload) ph
        (View.of s₀) (some .refused)
        ({ View.of s with tainted := true }.answer (.inspectState payload)
          (.finishWithError status))
    | .stdException _ => ∀ status, Trans h (.inspectState payload) ph (View.of s₀)
        (some .refused) ({ View.of s with tainted := true }.answer (.inspectState payload)
          (.finishWithError status))

/-- An exception of the transaction, once the parked coroutine is woken and the
    lock is released. -/
theorem caught_of_raised {e : Exn} {ph : Phase} {s₀ s s' : HandlerContext}
    (hraised : (inspectTransaction h payload index coroutine).Raised e ph s₀ s) (hs' : Live s')
    (hv' : View.of s' = { (View.of s).wake coroutine with lock := false }) :
    InspectCaught h payload e ph s₀ s' := by
  obtain ⟨stage, rfl, ⟨f, hf, -, hv⟩, hwhy⟩ : ∃ stage, ph = .inspecting index coroutine stage ∧
      (inspectTransaction h payload index coroutine).Along stage s₀ s ∧
      (Fails 0 e ∨ ((View.of s₀).newStub = false ∧ ∃ status, e = .finishErrorYieldNone status)) := by
    rcases hraised with ⟨⟨stage, rfl, -, halong⟩, hfails⟩ | ⟨stage, status, rfl, hstub, halong, rfl⟩
    · exact ⟨stage, rfl, halong, Or.inl hfails⟩
    · exact ⟨stage, rfl, halong, Or.inr ⟨hstub.stub, status, rfl⟩⟩
  have hview : View.of s' = { ((View.of s₀).mapEpoch index f).wake coroutine with
      waiting := settled stage (View.of s₀).waiting, lock := false } := by
    rw [hv', hv]
    cases coroutine with
    | none => rfl
    | some g => rfl
  -- the two kinds of exceptions differ in the taint
  have hfail : ∀ taint, (taint = false → (View.of s₀).newStub = false) → ∀ status,
      Trans h (.inspectState payload) (.inspecting index coroutine stage) (View.of s₀)
        (some .refused) ({ ((View.of s₀).mapEpoch index f).wake coroutine with
          waiting := settled stage (View.of s₀).waiting
          lock := false
          tainted := (View.of s₀).tainted || taint }.answer (.inspectState payload)
            (.finishWithError status)) :=
    fun taint hstub status => .inspectFail hf hstub
  rcases hwhy with hfails | ⟨hstub, status, rfl⟩
  · have htaint : ∀ status, Trans h (.inspectState payload) (.inspecting index coroutine stage)
        (View.of s₀) (some .refused) ({ View.of s' with tainted := true }.answer
          (.inspectState payload) (.finishWithError status)) := by
      intro status
      have := hfail true (fun hc => absurd hc (by decide)) status
      rw [Bool.or_true] at this
      rw [hview]
      exact this
    cases hfails with
    | taint status => exact ⟨hs', rfl, htaint⟩
    | exception what => exact ⟨hs', htaint⟩
  · refine ⟨hs', fun status => ?_⟩
    have := hfail false (fun _ => hstub) status
    rw [Bool.or_false] at this
    rw [hview]
    cases coroutine with
    | none => exact this
    | some g => exact this

/-- The scope of `resume_on_exit`. -/
theorem sat_autoResume {Q : Unit → Phase → HandlerContext → HandlerContext → Prop}
    {E : Exn → Phase → HandlerContext → HandlerContext → Prop} {ph : Phase}
    {s₀ s : HandlerContext} {body : Handler Unit}
    (hbody : Prog.Sat sessionProtocol h rpc (Released (fun v => v.wake coroutine) Q)
      (Released (fun v => v.wake coroutine) E) body ph s₀ s) :
    Prog.Sat sessionProtocol h rpc Q E (body.andFinally (autoResume coroutine)) ph s₀ s := by
  have hend : ∀ {Q : Phase → HandlerContext → HandlerContext → Prop} ph s₀ s,
      (Live s ∧ ∀ s', Live s' → View.of s' = (View.of s).wake coroutine → Q ph s₀ s') →
      Prog.Sat sessionProtocol h rpc (fun _ => Q) E (autoResume coroutine) ph s₀ s := by
    rintro Q ph s₀ s ⟨hs, hQ⟩
    cases coroutine with
    | none => exact hQ s hs rfl
    | some g =>
        obtain ⟨session, hsession⟩ := hs
        exact sat_enqueue fun s' hs' hv' => hQ s' ⟨session, hs'.trans hsession⟩ hv'
  rw [Prog.sat_andFinally]
  exact Prog.sat_mono hbody (fun a => hend) fun e => hend

theorem sat_inspectStateBody (fuel : Nat) {ph : Phase} {s₀ s : HandlerContext}
    (hentry : QueryEntry h payload index coroutine ph s₀ s) :
    Prog.Sat sessionProtocol h (.inspectState payload)
      (Released (fun v => v.wake coroutine) (Released (setLockView false) fun _ ph s₀ s =>
        sessionProtocol.Step h (.inspectState payload) ph s₀ none s))
      (Released (fun v => v.wake coroutine) (Released (setLockView false)
        (InspectCaught h payload)))
      (inspectStateBody fuel h 0 index payload) ph s₀ s := by
  simp only [inspectStateBody, Prog.bind_eq, Prog.sat_bind]
  refine sat_checkTainted hentry.live ?_ fun htaint => ?_
  · refine fun htaint status => ⟨hentry.live, fun s₁ hs₁ hv₁ => ⟨hs₁, fun s₂ hs₂ hv₂ =>
      ⟨hs₂, fun status => ?_⟩⟩⟩
    rw [hv₂, hv₁]
    exact hentry.refuse htaint status
  · refine Prog.sat_mono (sat_processPendingQuery fuel hentry htaint) ?_ ?_
    · intro _ ph₁ s₁ s₁' hqueried
      have hlive : Live s₁' := by
        rcases hqueried with ⟨-, -, hlive, -⟩ | hin
        · exact hlive
        · exact hin.park.1
      obtain ⟨session, hsession⟩ := id hlive
      rw [sat_getSession hsession]
      refine sat_getQuery hlive (hqueried.lost hentry.query) fun e q he hq => ?_
      refine sat_modifyEpoch hsession (epoch_there he) fun e' s₂ _ hs₂ hv₂ => ?_
      refine sat_finish (.inspected coroutine) ⟨_, hs₂⟩ .inspected ?_ ?_
      · rcases hqueried with ⟨rfl, rfl, -, f, hf, hv⟩ | ⟨stage, rfl, -, f, hf, -, hv⟩
        · -- no transaction was needed
          have hclear : View.of s₂ = (View.of s).mapEpoch index clearQuery := by
            rw [hv₂, hv, mapEpoch_mapEpoch]
            exact congrArg _ (funext fun e => clearQuery_queryChange hf e)
          rw [hclear]
          exact hentry.quick htaint _
        · -- the transaction ends here
          obtain ⟨e₁, he₁, hfe⟩ : ∃ e₁, (View.of s₁).epochs index = some e₁ ∧ f e₁ = e := by
            rw [hv] at he
            simpa only [View.mapEpoch, Function.update_self, Option.map_eq_some_iff] using he
          obtain ⟨q₁, hq₁⟩ := queryChange_of_some hf (hfe ▸ hq)
          have hclear : View.of s₂ = { (View.of s₁).mapEpoch index clearQuery with
              waiting := settled stage (View.of s₁).waiting } := by
            have hmap : (View.of s₁).mapEpoch index clearQuery =
                ((View.of s₁).mapEpoch index f).mapEpoch index clearQuery := by
              rw [mapEpoch_mapEpoch]
              exact congrArg _ (funext fun e => (clearQuery_queryChange hf e).symm)
            rw [hv₂, hv, hmap]
            rfl
          rw [hclear]
          exact .inspectDone he₁ hq₁
      · refine fun s₃ hs₃ => ⟨hs₃, fun s₄ hs₄ hv₄ => ⟨hs₄, fun s₅ hs₅ hv₅ => ⟨hs₅, ?_⟩⟩⟩
        rw [hv₅, hv₄]
        exact .inspected
    · intro e ph₁ s₁ s₁' hraised
      refine ⟨hraised.live, fun s₂ hs₂ hv₂ => ⟨hs₂, fun s₃ hs₃ hv₃ => ?_⟩⟩
      refine caught_of_raised hraised hs₃ ?_
      rw [hv₃, hv₂]
      rfl

/-- A handler that was let in by the inputs finds the coroutine it has to resume
    in its query. -/
theorem queryEntry_queued {s : HandlerContext} {e : EpochType} {q : QueryType} (hs : Live s)
    (he : (View.of s).epochs index = some e) (hq : e.pendingQuery = some q) :
    QueryEntry h payload index q.coroutine (.queued index) s s where
  live := hs
  query := ⟨e, q, he, hq⟩
  start htaint _ hf := .queued htaint he hq hf
  quick htaint _ := .queuedQuick htaint he hq
  refuse htaint _ := .queuedRefuse htaint he hq

/-- A handler that found no input in the queue has nothing to resume. -/
theorem queryEntry_fresh {s₀ s : HandlerContext} {e : EpochType} (hs : Live s)
    (hlock : (View.of s₀).lock = false) (htaint : (View.of s₀).tainted = false)
    (he : (View.of s₀).epochs (View.of s₀).active = some e) (hq : e.pendingQuery = none)
    (hpend : e.pendingInputs = [])
    (hv : View.of s = { (View.of s₀).mapEpoch (View.of s₀).active
      (setQuery (QueryType.new payload)) with lock := true }) :
    QueryEntry h payload (View.of s₀).active none .fresh s₀ s := by
  have hv' : ∀ f, (View.of s).mapEpoch (View.of s₀).active f =
      { (View.of s₀).mapEpoch (View.of s₀).active
        (fun e => f (setQuery (QueryType.new payload) e)) with lock := true } := by
    intro f
    rw [hv, ← mapEpoch_mapEpoch _ _ (setQuery (QueryType.new payload)) f]
    rfl
  refine ⟨hs, ⟨setQuery (QueryType.new payload) e, QueryType.new payload, ?_, rfl⟩, ?_, ?_, ?_⟩
  · rw [hv]
    simp only [View.mapEpoch, Function.update_self, he, Option.map_some]
  · intro _ f hf
    obtain ⟨q, hfq, hco⟩ := queryChange_some hf (e := setQuery (QueryType.new payload) e) rfl
    have hset : f (setQuery (QueryType.new payload) e) = setQuery q e := by
      rw [(hf _).1, hfq]
      rfl
    rw [hv', mapEpoch_congr (g := setQuery q) he hset]
    exact .inspect hlock htaint he hq hpend hco
  · intro _ response
    have hclear : clearQuery (setQuery (QueryType.new payload) e) = id e := by
      rw [clearQuery, setQuery, ← hq]
      rfl
    rw [hv', mapEpoch_congr (g := id) he hclear, mapEpoch_id]
    exact .inspectQuick hlock htaint he hq hpend
  · intro htainted
    rw [hv] at htainted
    exact absurd (htaint.symm.trans htainted) Bool.false_ne_true

theorem sat_inspectStateLocked (fuel : Nat) {s₀ s : HandlerContext} (hs : Live s)
    (hlock : (View.of s₀).lock = false) (hv : View.of s = { View.of s₀ with lock := true }) :
    Prog.Sat sessionProtocol h (.inspectState payload)
      (Released (setLockView false) fun _ ph s₀ s =>
        sessionProtocol.Step h (.inspectState payload) ph s₀ none s)
      (Released (setLockView false) (InspectCaught h payload))
      (inspectStateLocked fuel h 0 payload) .fresh s₀ s := by
  have hrefuse : ∀ status, Released (setLockView false) (InspectCaught h payload)
      (.finishErrorYieldNone status) .fresh s₀ s := by
    refine fun status => ⟨hs, fun s' hs' hv' => ⟨hs', fun status => ?_⟩⟩
    have hview : View.of s' = View.of s₀ := by
      rw [hv', hv, setLockView, ← hlock]
    rw [hview]
    exact .refuse
  obtain ⟨session, hsession⟩ := id hs
  have hactive : session.activeEpochIndex = (View.of s₀).active := by
    have : (View.of s).active = session.activeEpochIndex := by
      rw [← view_withSession hsession]
      rfl
    rw [← this, hv]
  simp only [inspectStateLocked, Prog.bind_eq, Prog.sat_bind]
  refine sat_checkTainted hs (fun _ => hrefuse) fun htaint => ?_
  rw [sat_getSession hsession, hactive]
  cases he : session.epochs.lookup (View.of s₀).active with
  | none => exact hrefuse _
  | some e =>
      have hve : (View.of s₀).epochs (View.of s₀).active = some e := by
        rw [← view_epochs hsession, hv] at he
        exact he
      have htaint₀ : (View.of s₀).tainted = false := by
        rw [hv] at htaint
        exact htaint
      dsimp only
      cases hq : e.pendingQuery with
      | some q => exact hrefuse _
      | none =>
          rw [if_neg (by exact Bool.false_ne_true), Prog.sat_bind]
          refine sat_modifyEpoch hsession (epoch_there ((view_epochs hsession _).trans he))
            fun e' s₁ _ hs₁ hv₁ => ?_
          have hview : View.of s₁ = { (View.of s₀).mapEpoch (View.of s₀).active
              (setQuery (QueryType.new payload)) with lock := true } := by
            rw [hv₁, hv]
            rfl
          cases hpend : e.pendingInputs with
          | nil =>
              exact sat_autoResume (sat_inspectStateBody fuel
                (queryEntry_fresh ⟨_, hs₁⟩ hlock htaint₀ hve hq hpend hview))
          | cons input rest =>
              rw [if_neg (by exact Bool.false_ne_true), Prog.sat_bind]
              have hve₁ : (View.of s₁).epochs (View.of s₀).active =
                  some (setQuery (QueryType.new payload) e) := by
                rw [hview]
                simp only [View.mapEpoch, Function.update_self, hve, Option.map_some]
              refine sat_modifyQuery ⟨_, hs₁⟩ (query_there hve₁ rfl) fun s₂ hs₂ hv₂ => ?_
              refine ⟨.queued (View.of s₀).active, .queued, ⟨hs₂, ?_⟩, fun _ s₃ hs₃ => ?_⟩
              · -- the handler parks with itself as the coroutine of its query
                have hself : View.of s₂ = { (View.of s₀).mapEpoch (View.of s₀).active
                    (setQuery { QueryType.new payload with coroutine := some h }) with
                    lock := true } := by
                  rw [hv₂, hview]
                  exact congrArg (fun v : View => { v with lock := true })
                    (mapEpoch_mapEpoch (View.of s₀) _ (setQuery (QueryType.new payload))
                      (mapQuery fun q => { q with coroutine := some h }))
                rw [hself]
                exact .queue hlock htaint₀ hve hq (by rw [hpend]; exact List.cons_ne_nil _ _) rfl
              · refine Prog.sat_bind.2 ?_
                refine sat_getQuery hs₃ (fun hlost => ?_) fun e₃ q₃ he₃ hq₃ => ?_
                · cases hlost with
                  | epoch hnone => exact .lost (.epoch rfl hnone)
                  | query he₃ hq₃ => exact .lost (.query rfl rfl he₃ hq₃)
                exact sat_autoResume (sat_inspectStateBody fuel (queryEntry_queued hs₃ he₃ hq₃))

/-- InspectState keeps to the protocol. -/
theorem keeps_inspectState (fuel : Nat) (peer : String) {s : HandlerContext} (hs : Live s) :
    sessionProtocol.Keeps h (.inspectState payload)
      (newInspectStateHandler fuel h peer payload) .fresh s := by
  refine sat_onArrival hs ?_
  unfold Protocol.Keeps
  rw [Prog.sat_tryCatch]
  refine Prog.sat_mono (E := InspectCaught h payload) ?_ (fun _ _ _ _ hQ => hQ) ?_
  · -- the try block
    have hrefuse : ∀ status, InspectCaught h payload (.finishErrorYieldNone status) .fresh s s :=
      fun status => ⟨hs, fun status => .refuse⟩
    simp only [Prog.bind_eq, Prog.sat_bind]
    exact sat_findSession hs (sat_withSessionLock hs hrefuse fun hlock s' hs' hv' =>
      sat_inspectStateLocked fuel hs' hlock hv')
  · -- the catch clauses
    rintro (status | ⟨ref, status⟩ | what) ph s₀ s₁ ⟨hs₁, hcaught⟩
    · exact sat_refused hs₁ (hcaught status)
    · obtain ⟨rfl, htaint⟩ := hcaught
      obtain ⟨session, hsession⟩ := hs₁
      simp only [Prog.bind_eq, Prog.sat_bind]
      refine sat_modifySession (g := fun v => { v with tainted := true }) hsession
        (fun v => rfl) fun s₂ hs₂ hv₂ => sat_refused ⟨_, hs₂⟩ ?_
      rw [hv₂]
      exact htaint status
    · obtain ⟨session, hsession⟩ := hs₁
      simp only [Prog.bind_eq, Prog.sat_bind, sat_getContext, hsession]
      refine sat_modifySession (g := fun v => { v with tainted := true }) hsession
        (fun v => rfl) fun s₂ hs₂ hv₂ => sat_refused ⟨_, hs₂⟩ ?_
      rw [hv₂]
      exact hcaught _

end ServerManager
