import ServerManager.Theory.Inputs
import ServerManager.Theory.Queries

/-!
# The Other Handlers Keep to the Protocol

FinishEpoch, DeleteEpoch, the two status RPCs, and the two ends of a check-in.
The first four lock the session, answer every exception with an error, and
unlock it after the acknowledgement.

## Main definitions

* `ErrorCaught`: What holds when the try block of such a handler throws.

## Theorems

* `keeps_locked`: The frame they share.
* `keeps_getSessionStatus`, `keeps_getEpochStatus`, `keeps_deleteEpoch`,
  `keeps_finishEpoch`, `keeps_checkIn`, `keeps_checkinDeadline`: The handlers.
-/

namespace ServerManager

open Coroutine

variable [Keccak] {h : HandlerId} {rpc : Rpc}

/-- What the locked part of a handler that answers every error must establish
    when it throws. -/
def ErrorCaught (h : HandlerId) (rpc : Rpc) (_ : Exn) (ph : Phase) (s₀ s : HandlerContext) :
    Prop :=
  Live s ∧ ∀ status, Trans h rpc ph (View.of s₀) (some .refused)
    ((View.of s).answer rpc (.finishWithError status))

/-- The common frame of the handlers that lock the session and answer every
    error. -/
theorem keeps_locked {notFound name peer : String} (body : Nat → Handler Unit)
    {s : HandlerContext} (hs : Live s)
    (hbody : (View.of s).lock = false → ∀ s', Live s' →
      View.of s' = { View.of s with lock := true } →
      Prog.Sat sessionProtocol h rpc
        (Released (setLockView false) fun _ ph s₀ s => sessionProtocol.Step h rpc ph s₀ none s)
        (Released (setLockView false) (ErrorCaught h rpc)) (body 0) .fresh s s') :
    sessionProtocol.Keeps h rpc
      (onArrival (answerErrors rpc do
        let ref ← findSession notFound
        withSessionLock ref name peer (body ref))) .fresh s := by
  refine sat_onArrival hs (sat_answerErrors ?_)
  rw [Prog.bind_eq, Prog.sat_bind]
  exact sat_findSession hs (sat_withSessionLock hs (fun _ => ⟨hs, fun _ => .refuse⟩) hbody)

omit [Keccak] in
theorem released_fresh {s₀ s : HandlerContext} [Keccak] (hs : Live s)
    (hlock : (View.of s₀).lock = false) (hv : View.of s = { View.of s₀ with lock := true })
    (e : Exn) : Released (setLockView false) (ErrorCaught h rpc) e .fresh s₀ s := by
  refine ⟨hs, fun s' hs' hv' => ⟨hs', fun status => ?_⟩⟩
  have hview : View.of s' = View.of s₀ := by
    rw [hv', hv, setLockView, ← hlock]
  rw [hview]
  exact .refuse

/-- The acknowledgement of an answer, and the end of the lock's scope. -/
theorem released_reporting {s : HandlerContext} (hs : Live s) :
    Released (setLockView false) (fun (_ : Unit) ph s₀ s =>
      sessionProtocol.Step h rpc ph s₀ none s) () .reporting s s := by
  refine ⟨hs, fun s' hs' hv' => ⟨hs', ?_⟩⟩
  rw [hv']
  exact .reported

/-! ### Status and DeleteEpoch -/

theorem keeps_getSessionStatus (peer : String) {s : HandlerContext} (hs : Live s) :
    sessionProtocol.Keeps h .getSessionStatus (newGetSessionStatusHandler peer) .fresh s := by
  refine keeps_locked _ hs fun hlock s₁ hs₁ hv₁ => ?_
  obtain ⟨session, hsession⟩ := id hs₁
  rw [Prog.bind_eq, Prog.sat_bind, sat_getSession hsession]
  refine sat_finish .reporting hs₁ (.reporting trivial) ?_ fun _ hs₂ => released_reporting hs₂
  rw [hv₁]
  exact .report (Or.inl rfl) hlock

theorem keeps_getEpochStatus (peer : String) (index : UInt64) {s : HandlerContext}
    (hs : Live s) :
    sessionProtocol.Keeps h (.getEpochStatus index) (newGetEpochStatusHandler peer index)
      .fresh s := by
  refine keeps_locked _ hs fun hlock s₁ hs₁ hv₁ => ?_
  obtain ⟨session, hsession⟩ := id hs₁
  rw [Prog.bind_eq, Prog.sat_bind, sat_getSession hsession]
  cases he : session.epochs.lookup index with
  | none => exact released_fresh hs₁ hlock hv₁ _
  | some e =>
      refine sat_finish .reporting hs₁ (.reporting trivial) ?_ fun _ hs₂ => released_reporting hs₂
      rw [hv₁]
      exact .report (Or.inr ⟨index, rfl⟩) hlock

omit [Keccak] in
theorem lookup_erase_epoch (epochs : Epochs) (index : UInt64) :
    (fun i => (epochs.erase index).lookup i) =
      Function.update (fun i => epochs.lookup i) index none := by
  funext i
  by_cases hi : i = index
  · subst hi
    rw [Function.update_self, AList.lookup_erase]
  · rw [Function.update_of_ne hi, AList.lookup_erase_ne hi]

theorem keeps_deleteEpoch (peer : String) (index : UInt64) {s : HandlerContext} (hs : Live s) :
    sessionProtocol.Keeps h (.deleteEpoch index) (newDeleteEpochHandler peer index) .fresh s := by
  refine keeps_locked (fun ref => deleteEpochLocked ref index) hs
    fun hlock s₁ hs₁ hv₁ => ?_
  obtain ⟨session, hsession⟩ := id hs₁
  have hactive : session.activeEpochIndex = (View.of s).active := by
    have : (View.of s₁).active = session.activeEpochIndex := by
      rw [← view_withSession hsession]
      rfl
    rw [← this, hv₁]
  unfold deleteEpochLocked
  rw [Prog.bind_eq, Prog.sat_bind, sat_getSession hsession]
  cases he : session.epochs.lookup index with
  | none => exact released_fresh hs₁ hlock hv₁ _
  | some e =>
      have hve : (View.of s).epochs index = some e := by
        rw [← view_epochs hsession, hv₁] at he
        exact he
      dsimp only
      by_cases hbad : e.state = .active ∨ session.activeEpochIndex = index
      · rw [if_pos hbad]
        exact released_fresh hs₁ hlock hv₁ _
      · rw [if_neg hbad, Prog.bind_eq, Prog.sat_bind]
        rw [not_or, hactive] at hbad
        refine sat_modifySession (g := fun v => { v with
            epochs := Function.update v.epochs index none }) hsession ?_ fun s₂ hs₂ hv₂ => ?_
        · intro v
          unfold View.withSession
          rw [lookup_erase_epoch]
        · refine sat_finish .reporting ⟨_, hs₂⟩ (.reporting trivial) ?_ fun _ hs₃ => released_reporting hs₃
          rw [hv₂, hv₁]
          exact .delete hlock hve hbad.1 hbad.2

/-! ### FinishEpoch -/

/-- The epoch is still there once it is finished. -/
theorem finishEpoch_there (v : View) (index : UInt64) (e : EpochType) :
    (v.finishEpoch index e).epochs index ≠ none := by
  simp only [View.finishEpoch]
  by_cases hi : index = v.active + 1
  · rw [← hi, Function.update_self]
    exact Option.some_ne_none _
  · rw [Function.update_of_ne hi, Function.update_self]
    exact Option.some_ne_none _

/-- The part of FinishEpoch after the checks and the store call. -/
theorem sat_finishNow {request : FinishEpochRequest} {ph : Phase} {s₀ s : HandlerContext}
    (hs : Live s)
    (hlost : (View.of s).epochs request.activeEpochIndex = none →
      Crashes h (.finishEpoch request) ph (View.of s₀) .useAfterFree)
    (hf : ∀ e ph' v', (View.of s).epochs request.activeEpochIndex = some e →
      Finishes request (View.of s) e ph' v' →
      Trans h (.finishEpoch request) ph (View.of s₀) (some ph') v') :
    Prog.Sat sessionProtocol h (.finishEpoch request)
      (Released (setLockView false) fun _ ph s₀ s =>
        sessionProtocol.Step h (.finishEpoch request) ph s₀ none s)
      (Released (setLockView false) (ErrorCaught h (.finishEpoch request)))
      (do
        finishEpoch 0 request.activeEpochIndex
        startNewEpoch 0 request.activeEpochIndex
        let e ← getEpoch 0 request.activeEpochIndex
        let response ← ofExcept (setProtoFinishEpochResponse e)
        finish (.finishEpoch request) (.finishEpoch response)) ph s₀ s := by
  obtain ⟨session, hsession⟩ := id hs
  simp only [finishEpoch, startNewEpoch, Prog.bind_eq, Prog.sat_bind]
  refine sat_getEpoch hsession hlost fun e he => ?_
  have hve := (view_epochs hsession request.activeEpochIndex).trans he
  refine sat_modifyEpoch hsession (epoch_there hve) fun e' s₁ he' hs₁ hv₁ => ?_
  have hview₁ : View.of s₁ = { View.of s with
      epochs := Function.update (View.of s).epochs request.activeEpochIndex
        (some (finishedEpoch e).1) } := by
    rw [hv₁, View.mapEpoch, hve, Option.map_some]
  cases hwhat : (finishedEpoch e).2 with
  | some what =>
      -- a proof could not be made
      refine ⟨⟨_, hs₁⟩, fun s' hs' hv' => ⟨hs', fun status => hf e _ _ hve ?_⟩⟩
      rw [hv', hview₁]
      exact .proofFailed
  | none =>
      have hve₁ : (View.of s₁).epochs request.activeEpochIndex = some (finishedEpoch e).1 := by
        rw [hview₁]
        exact Function.update_self ..
      refine sat_getEpoch hs₁ (epoch_there hve₁) fun prev hprev => ?_
      have hp : prev = (finishedEpoch e).1 := by
        rw [← view_epochs hs₁, hview₁] at hprev
        simpa using hprev.symm
      subst hp
      refine sat_modifySession (g := fun v => { v with
          active := v.active + 1
          epochs := Function.update v.epochs (v.active + 1) (some { EpochType.new with
            epochIndex := v.active + 1
            mostRecentMachineHash := (finishedEpoch e).1.mostRecentMachineHash }) })
        hs₁ ?_ fun s₂ hs₂ hv₂ => ?_
      · intro v
        unfold View.withSession withNewEpoch
        simp only [lookup_insert_epoch]
      · have hview₂ : View.of s₂ = (View.of s).finishEpoch request.activeEpochIndex e := by
          rw [hv₂, hview₁]
          rfl
        refine sat_getEpoch hs₂ (fun hnone => ?_) fun e₂ he₂ => ?_
        · rw [hview₂] at hnone
          exact absurd hnone (finishEpoch_there _ _ _)
        have hve₂ := (view_epochs hs₂ request.activeEpochIndex).trans he₂
        rw [hview₂] at hve₂
        cases hr : setProtoFinishEpochResponse e₂ with
        | error what =>
            refine ⟨⟨_, hs₂⟩, fun s' hs' hv' => ⟨hs', fun status => hf e _ _ hve ?_⟩⟩
            rw [hv', hview₂]
            exact .responseFailed
        | ok response =>
            refine sat_finish .reporting ⟨_, hs₂⟩ (.reporting trivial) (hf e _ _ hve ?_)
              fun _ hs₃ => released_reporting hs₃
            rw [hview₂]
            exact .answered hve₂ hr

/-- The store call, and what its failure leads to. -/
theorem sat_store {request : FinishEpochRequest} {directory : String} {ph : Phase}
    {s₀ s : HandlerContext} {Q : Unit → Phase → HandlerContext → HandlerContext → Prop}
    {E : Exn → Phase → HandlerContext → HandlerContext → Prop} (hs : Live s)
    (hstep : Trans h (.finishEpoch request) ph (View.of s₀)
      (some (.storing request.activeEpochIndex)) (View.of s))
    (hQ : ∀ s₁, Live s₁ → Q () (.storing request.activeEpochIndex) s₁ s₁)
    (hE : ∀ s₁ status, Live s₁ →
      E (.finishErrorYieldNone status) (.storing request.activeEpochIndex) s₁ s₁) :
    Prog.Sat sessionProtocol h (.finishEpoch request) Q E (store 0 directory) ph s₀ s := by
  obtain ⟨session, hsession⟩ := id hs
  refine Prog.sat_bind.2 (Prog.sat_bind.2 ((sat_getSession hsession).2 ?_))
  dsimp only
  split
  · refine ⟨.storing request.activeEpochIndex, .storing, ⟨hs, hstep⟩, fun reply s₁ hs₁ => ?_⟩
    refine Prog.sat_bind.2 ?_
    unfold checkStatusOrFail
    split
    · exact hQ s₁ hs₁
    · exact hE s₁ _ hs₁
  · exact Crashes.other (x := .nullStub) (by decide) (by decide)

theorem sat_finishEpochLocked {request : FinishEpochRequest} {s₀ s : HandlerContext}
    (hs : Live s) (hlock : (View.of s₀).lock = false)
    (hmax : (View.of s₀).active ≠ 0xFFFFFFFFFFFFFFFF)
    (hv : View.of s = { View.of s₀ with lock := true }) :
    Prog.Sat sessionProtocol h (.finishEpoch request)
      (Released (setLockView false) fun _ ph s₀ s =>
        sessionProtocol.Step h (.finishEpoch request) ph s₀ none s)
      (Released (setLockView false) (ErrorCaught h (.finishEpoch request)))
      (finishEpochLocked 0 request) .fresh s₀ s := by
  have hrefuse : ∀ e, Released (setLockView false) (ErrorCaught h (.finishEpoch request)) e
      .fresh s₀ s := released_fresh hs hlock hv
  obtain ⟨session, hsession⟩ := id hs
  simp only [finishEpochLocked, Prog.bind_eq, Prog.sat_bind]
  refine sat_checkTainted hs (fun _ status => hrefuse _) fun htaint => ?_
  rw [sat_getSession hsession]
  rw [hv] at htaint
  cases he : session.epochs.lookup request.activeEpochIndex with
  | none => exact hrefuse _
  | some e =>
      have hve : (View.of s₀).epochs request.activeEpochIndex = some e := by
        rw [← view_epochs hsession, hv] at he
        exact he
      dsimp only
      by_cases hstate : e.state ≠ .active
      · rw [if_pos hstate]
        exact hrefuse _
      rw [if_neg hstate]
      cases hpend : e.pendingInputs with
      | cons input rest => exact hrefuse _
      | nil =>
          rw [if_neg (by exact Bool.false_ne_true)]
          by_cases hcount :
              e.processedInputs.length ≠ request.processedInputCountWithinEpoch.toNat
          · rw [if_pos hcount]
            exact hrefuse _
          rw [if_neg hcount]
          by_cases hdir : request.storageDirectory ≠ ""
          · rw [if_pos hdir, Prog.sat_bind]
            refine sat_store hs ?_ (fun s₁ hs₁ => ?_) fun s₁ status hs₁ => ⟨hs₁, ?_⟩
            · rw [hv]
              exact .store hlock htaint hmax hdir hve (not_not.1 hstate) hpend
            · have hnow := @sat_finishNow _ h request (.storing request.activeEpochIndex) s₁ s₁ hs₁
                (fun hnone => .lost (.epoch rfl hnone)) fun e ph' v' he hf => .stored he hf
              simp only [Prog.bind_eq, Prog.sat_bind] at hnow ⊢
              exact hnow
            · refine fun s' hs' hv' => ⟨hs', fun status => ?_⟩
              rw [hv']
              exact .storeFailed
          · rw [if_neg hdir]
            have hnow := @sat_finishNow _ h request .fresh s₀ s hs
              (epoch_there ((view_epochs hsession _).trans he)) fun e' ph' v' he' hf => by
              rw [hv] at he' hf
              have hee : e' = e := Option.some.inj (he'.symm.trans hve)
              subst hee
              exact .finish hlock htaint hmax (not_not.1 hdir) hve (not_not.1 hstate) hpend hf
            simp only [Prog.bind_eq, Prog.sat_bind] at hnow ⊢
            exact hnow

theorem keeps_finishEpoch (peer : String) (request : FinishEpochRequest) {s : HandlerContext}
    (hs : Live s) :
    sessionProtocol.Keeps h (.finishEpoch request) (newFinishEpochHandler peer request)
      .fresh s := by
  refine sat_onArrival hs (sat_answerErrors ?_)
  simp only [Prog.bind_eq, Prog.sat_bind]
  refine sat_findSession hs (sat_checkEpochOverflow hs (fun _ => ⟨hs, fun _ => .refuse⟩)
    fun hmax => ?_)
  exact sat_withSessionLock hs (fun _ => ⟨hs, fun _ => .refuse⟩) fun hlock s' hs' hv' =>
    sat_finishEpochLocked hs' hlock hmax hv'

/-! ### Check-in -/

theorem keeps_checkIn (address : String) {s : HandlerContext} (hs : Live s) :
    sessionProtocol.Keeps h (.checkIn address) (newCheckinHandler address) .fresh s := by
  refine sat_onArrival hs (sat_answerErrors ?_)
  obtain ⟨session, hsession⟩ := id hs
  simp only [Prog.bind_eq, Prog.sat_bind, sat_getContext]
  cases hwait : s.waitingCheckin with
  | none => exact ⟨hs, fun _ => .refuse⟩
  | some cctx =>
      simp only [hsession, Option.isNone_some, Bool.false_eq_true, if_false, Prog.sat_bind]
      refine sat_finish (.checkedIn cctx.coroutine) ⟨{ session with serverAddress := address }, ?_⟩
        .checkedIn ?_ fun s₁ hs₁ => ?_
      · simp only [hsession, Option.map_some]
      · have hview : View.of { s with
            session := s.session.map fun s => (s.1, { s.2 with serverAddress := address })
            waitingCheckin := some { cctx with status := some true }
            alarms := cancelAlarm s.alarms cctx.alarm } =
            { View.of s with waiting := some { cctx with status := some true } } := by
          unfold View.of
          rw [hsession]
          rfl
        rw [hview]
        exact .checkIn ((view_waiting s).trans hwait)
      · exact ⟨.resuming cctx.coroutine, .resuming, ⟨hs₁, .checkedIn⟩, fun _ s₂ hs₂ => ⟨hs₂, .resumed⟩⟩

theorem keeps_checkinDeadline (alarm : Nat) {s : HandlerContext} (hs : Live s) :
    sessionProtocol.Keeps h (.checkinDeadline alarm) checkinDeadlineResumed .fresh s := by
  unfold Protocol.Keeps checkinDeadlineResumed
  rw [Prog.bind_eq, Prog.sat_bind, sat_getContext]
  split
  · cases hwait : s.waitingCheckin with
    | none => exact Crashes.other (x := .deadlineNotFound) (by decide) (by decide)
    | some cctx =>
        refine ⟨.resuming cctx.coroutine, .resuming, ⟨hs, ?_⟩, fun _ s₁ hs₁ => ⟨hs₁, .resumed⟩⟩
        convert Trans.deadline ((view_waiting s).trans hwait) using 1
        exact view_setCheckin s _ s.alarms
  · exact ⟨hs, .ignore⟩

end ServerManager
