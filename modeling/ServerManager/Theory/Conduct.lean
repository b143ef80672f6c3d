import ServerManager.Theory.Lifecycle
import ServerManager.Theory.Rounds

/-!
# Every Handler Keeps to the Rules of Resuming

StartSession puts a session in the context that was not there before, and takes
it out again if anything goes wrong. The two ends of a check-in look the
coroutine up that waits, and resume it. With these, all handlers keep to the
protocol of who resumes whom.

## Main definitions

* `Founded`, `Founding`: What holds along the segments of StartSession.
* `Ruined`: What holds when it throws.

## Theorems

* `posts_startSession`, `posts_checkIn`, `posts_checkinDeadline`: The handlers.
* `keeps_posts`: All of them.
-/

namespace ServerManager

open Coroutine

/-! ### StartSession -/

section Start

variable [Keccak] {h : HandlerId} {request : StartSessionRequest} {ref : Nat} {ph : Post}
  {s₀ s : HandlerContext}

/-- What holds along the first segment, once the session is in the context. -/
structure Founded (ref : Nat) (ph : Post) (s₀ s : HandlerContext) : Prop where
  fresh : ph = .fresh
  entry : ref = s₀.generation
  none : (Callbacks.of s₀).table = none
  table : ∃ active, Callbacks.of s = { Callbacks.of s₀ with
    table := some ⟨ref, true, active, fun _ => .none⟩
    generation := ref + 1 }

instance (ref : Nat) : Tracks (Founded ref) where
  congr hf hT := ⟨hf.fresh, hf.entry, hf.none, hT ▸ hf.table⟩

/-- What holds along the later segments, until the first epoch is there. -/
def Founding (ref : Nat) (ph : Post) (s₀ s : HandlerContext) : Prop :=
  (∃ waiting, ph = .starting ref waiting) ∧ Callbacks.of s = Callbacks.of s₀

instance (ref : Nat) : Tracks (Founding ref) where
  congr hf hT := ⟨hf.1, hT.trans hf.2⟩

/-- What holds when StartSession throws. -/
inductive Ruined (ph : Post) (s₀ s : HandlerContext) : Prop
  | founded (hph : ph = .fresh) (hnone : (Callbacks.of s₀).table = none)
      (hgeneration : s.generation = s₀.generation + 1)
      (hqueue : s.completionQueue = s₀.completionQueue)
  | founding (hph : ∃ ref waiting, ph = .starting ref waiting)
      (hgeneration : s.generation = s₀.generation)
      (hqueue : s.completionQueue = s₀.completionQueue)

omit [Keccak] in
theorem Founded.ruined (hf : Founded ref ph s₀ s) : Ruined ph s₀ s := by
  rcases hf.table with ⟨active, hT⟩
  refine .founded hf.fresh hf.none ?_ (congrArg Callbacks.queue hT)
  rw [← hf.entry]
  exact congrArg Callbacks.generation hT

omit [Keccak] in
theorem Founding.ruined (hf : Founding ref ph s₀ s) : Ruined ph s₀ s := by
  rcases hf with ⟨⟨waiting, rfl⟩, hT⟩
  exact .founding ⟨ref, waiting, rfl⟩ (congrArg Callbacks.generation hT) (congrArg Callbacks.queue hT)

omit [Keccak] in
/-- Whatever is written to the session does not matter any more. -/
theorem Ruined.write {entry : Option (Nat × SessionType)} (hr : Ruined ph s₀ s) :
    Ruined ph s₀ { s with session := entry } := by
  cases hr with
  | founded hph hnone hgeneration hqueue => exact .founded hph hnone hgeneration hqueue
  | founding hph hgeneration hqueue => exact .founding hph hgeneration hqueue

theorem calling_founding :
    Calling h (.startSession request) ref (Founding ref) (fun _ => Ruined) where
  park _ _ _ _ hf := by
    rcases hf with ⟨⟨waiting, rfl⟩, hT⟩
    exact ⟨.starting ref false, .startCall, .check (Or.inl hT), fun s => ⟨⟨false, rfl⟩, rfl⟩⟩
  throws _ _ _ _ _ hf := hf.ruined

theorem tracks_checkRollupConfig (config : MachineConfig) :
    Prog.Steady callbackProtocol h (.startSession request) (Founding ref) (fun _ => Ruined)
      (checkRollupConfig ref config) := by
  have hw : Calling h (.startSession request) ref (Founding ref) (fun _ => Ruined) :=
    calling_founding
  unfold checkRollupConfig
  split
  · exact tracks_tame hw (tame_throwFinishError _ _)
  · next rollup hrollup =>
      dsimp only
      split
      · exact fun _ _ _ hf => hf.ruined
      · exact Prog.steady_bind (tracks_tame hw (tame_checkMemoryRangeConfig _ _)) fun _ =>
          Prog.steady_bind (tracks_tame hw (tame_checkMemoryRangeConfig _ _)) fun _ =>
          Prog.steady_bind (tracks_tame hw (tame_checkMemoryRangeConfig _ _)) fun _ =>
          Prog.steady_bind (tracks_tame hw (tame_checkMemoryRangeConfig _ _)) fun _ =>
          Prog.steady_bind (tracks_tame hw (tame_checkMemoryRangeConfig _ _)) fun _ =>
          tracks_modify (fun _ => rfl) (fun _ => rfl) fun _ => rfl

/-- The part with the server checked in, up to the acknowledgement of the answer. -/
theorem sat_founding (hf : Founding ref ph s₀ s) :
    Prog.Sat callbackProtocol h (.startSession request)
      (fun _ ph s₀ s => ph = .starting ref false ∧ s = s₀) (fun _ => Ruined)
      (startSessionChecked ref request) ph s₀ s := by
  have hw : Calling h (.startSession request) ref (Founding ref) (fun _ => Ruined) :=
    calling_founding
  have hchecks : Prog.Steady callbackProtocol h (.startSession request) (Founding ref)
      (fun _ => Ruined) (do
        checkServerVersion ref
        checkServerMachine ref request.machineDirectory
        let config ← getInitialConfig ref
        checkHtifConfig config.htif
        checkRollupConfig ref config
        let currentMcycle ← checkIsYielded ref
        modifySession ref fun session => { session with currentMcycle := currentMcycle }
        return config) :=
    Prog.steady_bind (tracks_tame hw tame_checkServerVersion) fun _ =>
      Prog.steady_bind (tracks_tame hw (tame_callOrFail (c := .machine _) rfl _)) fun _ =>
      Prog.steady_bind (tracks_tame hw (tame_callOrFail (c := .getInitialConfig) rfl _)) fun _ =>
      Prog.steady_bind (tracks_tame hw (tame_checkHtifConfig _)) fun _ =>
      Prog.steady_bind (tracks_checkRollupConfig _) fun _ =>
      Prog.steady_bind (tracks_tame hw tame_checkIsYielded) fun _ =>
      Prog.steady_bind (tracks_modify (fun _ => rfl) (fun _ => rfl) fun _ => rfl) fun _ =>
      Prog.steady_pure _
  have hanswer : ∀ (config : MachineConfig) ph s₀ s, Founding ref ph s₀ s →
      Prog.Sat callbackProtocol h (.startSession request)
        (fun _ ph s₀ s => ph = .starting ref false ∧ s = s₀) (fun _ => Ruined)
        (startFirstEpoch ref >>= fun _ =>
          finish (.startSession request) (.startSession config)) ph s₀ s := by
    intro config ph s₀ s hf
    simp only [startFirstEpoch, Prog.bind_eq, Prog.sat_bind]
    refine sat_session fun session hs => ?_
    refine Prog.sat_mono (tracks_quiet hw quiet_getRootHash ph s₀ s hf) (fun hash ph s₀ s hf => ?_)
      fun _ _ _ _ he => he
    refine sat_modify fun session' hs' => ?_
    rcases hf with ⟨⟨waiting, rfl⟩, hT⟩
    refine ⟨.starting ref false, .started, .check (Or.inr ?_), fun _ _ _ => ⟨rfl, rfl⟩⟩
    rw [← hT]
    refine ⟨_, session.activeEpochIndex, table_of hs', rfl, ?_⟩
    have hcallers := callers_insert session' session.activeEpochIndex { EpochType.new with
      epochIndex := session.activeEpochIndex
      mostRecentMachineHash := hash }
    unfold Callbacks.of
    simp only [Option.map_some, hcallers]
    rfl
  have hsat := Prog.sat_mono (hchecks ph s₀ s hf) (fun config ph s₀ s hf => hanswer config ph s₀ s hf)
    fun _ _ _ _ he => he
  simp only [startSessionChecked, Prog.bind_eq, Prog.sat_bind, Prog.pure_eq, Prog.Sat] at hsat ⊢
  exact hsat

/-- The inner try block. -/
theorem sat_founded (h : HandlerId) (request : StartSessionRequest) (hf : Founding ref ph s₀ s) :
    Prog.Sat callbackProtocol h (.startSession request)
      (fun _ ph s₀ s => ph = .starting ref false ∧ s = s₀) (fun _ => Ruined)
      ((startSessionChecked ref request).tryCatch (shutdownAndRethrow ref)) ph s₀ s := by
  rw [Prog.sat_tryCatch]
  refine Prog.sat_mono (sat_founding hf) (fun _ _ _ _ hQ => hQ) fun x ph s₀ s hr =>
    Prog.sat_bind.2 (sat_session fun session hs => ?_)
  split
  · exact hr
  · trivial

/-- The wait for the first check-in, and what follows it. -/
theorem sat_awaited (h : HandlerId) (request : StartSessionRequest) (hf : Founded ref ph s₀ s) :
    Prog.Sat callbackProtocol h (.startSession request)
      (fun _ ph s₀ s => ph = .starting ref false ∧ s = s₀) (fun _ => Ruined)
      (triggerAndWaitCheckin h ref spawnServer >>= fun _ =>
        (startSessionChecked ref request).tryCatch (shutdownAndRethrow ref)) ph s₀ s := by
  simp only [triggerAndWaitCheckin, Prog.bind_eq, Prog.sat_bind]
  refine sat_session fun session hs => ?_
  show Prog.Sat callbackProtocol h _ _ _ (if s.waitingCheckin.isSome = true then _ else _) ph s₀ s
  split
  · trivial
  rw [Prog.sat_bind]
  refine Prog.sat_bind.2 (sat_context ?_)
  split
  · exact hf.ruined
  simp only [Prog.pure_eq, Prog.Sat, Prog.sat_bind]
  refine sat_session fun session₁ hs₁ => ?_
  rcases hf with ⟨rfl, rfl, hnone, active, hT⟩
  refine ⟨.starting s₀.generation true, .startCheckin, .install rfl hnone hT, fun _ s₂ _ => ?_⟩
  -- the check-in or the deadline resumed the handler
  refine sat_session fun session₂ hs₂ => ?_
  refine sat_context ?_
  cases hwait : s₂.waitingCheckin with
  | none => trivial
  | some cctx =>
      dsimp only
      cases hstatus : cctx.status with
      | none => trivial
      | some status =>
          have herased : Founding s₀.generation (.starting s₀.generation true) s₂ { s₂ with
              waitingCheckin := none
              alarms := cancelAlarm s₂.alarms cctx.alarm } := ⟨⟨true, rfl⟩, rfl⟩
          cases status with
          | false => exact herased.ruined
          | true =>
              have hstub : Prog.Steady callbackProtocol h (.startSession request)
                  (Founding s₀.generation) (fun _ => Ruined) (checkServerStub s₀.generation) :=
                tracks_checkServerStub fun hf => hf.ruined
              have hrest := Prog.sat_mono (hstub _ _ _ herased)
                (fun _ ph s₀ s hf => sat_founded h request hf)
                fun _ _ _ _ he => he
              exact Prog.sat_bind.2 hrest

/-- The destructor of the lock after an exception. -/
theorem Ruined.unlock (h : HandlerId) (request : StartSessionRequest) (ref : Nat)
    (hr : Ruined ph s₀ s) :
    Prog.Sat callbackProtocol h (.startSession request) (fun _ => Ruined) (fun _ => Ruined)
      (modifySession ref (sessionLockField.set false)) ph s₀ s :=
  sat_modify fun _ _ => hr.write

/-- The answer of the catch clauses, once the session is erased. -/
theorem Ruined.rejected {status : Status} {E : Exn → Post → HandlerContext → HandlerContext → Prop}
    (hr : Ruined ph s₀ s) :
    Prog.Sat callbackProtocol h (.startSession request)
      (fun _ ph s₀ s => PostStep h (.startSession request) ph s₀ none s) E
      (eraseSession >>= fun _ => finishWithError (.startSession request) status) ph s₀ s := by
  rw [Prog.bind_eq, Prog.sat_bind]
  refine post_rejected (s := { s with session := none }) ?_
  cases hr with
  | founded hph hnone hgeneration hqueue =>
      subst hph
      refine .abort hnone ?_
      have hbefore : Callbacks.of s₀ = ⟨none, s₀.generation, s₀.completionQueue⟩ := by
        rw [← hnone]
        rfl
      rw [hbefore]
      unfold Callbacks.of
      simp only [hgeneration, hqueue, Option.map_none]
  | founding hph hgeneration hqueue =>
      rcases hph with ⟨ref, waiting, rfl⟩
      refine .close ?_
      unfold Callbacks.of
      simp only [hgeneration, hqueue, Option.map_none]

theorem posts_startSession (peer : String) :
    callbackProtocol.Keeps h (.startSession request) (newStartSessionHandler h peer request)
      .fresh s := by
  refine post_arrival ?_
  rw [Protocol.Keeps, Prog.sat_tryCatch]
  have hbody : Prog.Sat callbackProtocol h (.startSession request)
      (fun _ ph s₀ s => PostStep h (.startSession request) ph s₀ none s) (fun _ => Ruined)
      (startSessionBody h peer request) .fresh s s := by
    rw [startSessionBody, Prog.bind_eq, Prog.sat_bind]
    show Prog.Sat callbackProtocol h _ _ _ (if s.id = "" then _ else _) .fresh s s
    split
    · exact post_refused
    split
    · exact post_refused
    next hsession =>
    have hnone : (Callbacks.of s).table = none := by
      unfold Callbacks.of
      rw [Option.not_isSome_iff_eq_none.1 hsession]
      rfl
    rw [Prog.bind_eq, Prog.sat_bind]
    show Prog.Sat callbackProtocol h (.startSession request) _ _
      (autoLock sessionLockField s.generation _ _) .fresh s
        { s with
          session := some (s.generation, getProtoSession s.id request)
          generation := s.generation + 1 }
    simp only [autoLock, LockField.acquire, Prog.bind_eq, Prog.sat_bind]
    refine sat_session fun session hs => ?_
    cases hs
    split
    · next hlocked => cases hlocked
    refine sat_modify fun session hs => ?_
    cases hs
    rw [Prog.sat_andFinally]
    have hf : Founded s.generation .fresh s { s with
        session := some (s.generation, sessionLockField.set true (getProtoSession s.id request))
        generation := s.generation + 1 } :=
      ⟨rfl, rfl, hnone, _, rfl⟩
    -- the reason of the lock, and the checks on the request
    have hcheck : Prog.Steady callbackProtocol h (.startSession request) (Founded s.generation)
        (fun _ => Ruined) (do
          modifySession s.generation fun session =>
            { session with sessionLockReason := getSessionLockReason "StartSession" peer }
          let session ← getSession s.generation
          checkRequest session request) := by
      refine Prog.steady_bind (tracks_modify (fun _ => rfl) (fun _ => rfl) fun _ => rfl) fun _ =>
        Prog.steady_bind tracks_getSession fun session => ?_
      have honly : ∀ s, Prog.Only (S := handlerSignature) (fun _ _ => False) (fun _ => True)
          (fun _ _ => False) (checkRequest session request) s := only_checkRequest session
      exact Prog.steady_of_only honly (fun _ _ _ _ hop => absurd hop id)
        (fun _ _ _ _ _ hf => hf.ruined) fun _ _ _ _ hx => absurd hx id
    have hdestructor : ∀ ph s₁ s₂, ph = .starting s.generation false ∧ s₂ = s₁ →
        Prog.Sat callbackProtocol h (.startSession request)
          (fun _ ph s₀ s => PostStep h (.startSession request) ph s₀ none s) (fun _ => Ruined)
          (modifySession s.generation (sessionLockField.set false)) ph s₁ s₂ := by
      rintro ph s₁ s₂ ⟨rfl, rfl⟩
      exact sat_modify fun session hs => .started (relocks_lock false hs)
    have hsat := Prog.sat_mono (hcheck _ _ _ hf) (fun _ _ _ _ hf =>
        Prog.sat_mono (sat_awaited h request hf) (fun _ => hdestructor)
          fun _ _ _ _ hr => hr.unlock h request s.generation)
      fun _ _ _ _ hr => hr.unlock h request s.generation
    simp only [Prog.bind_eq, Prog.sat_bind] at hsat ⊢
    exact hsat
  refine Prog.sat_mono hbody (fun _ _ _ _ hQ => hQ) fun x ph s₀ s hr => ?_
  cases x with
  | finishErrorYieldNone status => exact hr.rejected
  | taintSession ref status => exact hr.rejected
  | stdException what => exact hr.rejected

end Start

/-! ### The two ends of a check-in -/

section CheckIn

variable [Keccak] {h : HandlerId} {s : HandlerContext}

theorem posts_checkIn (address : String) :
    callbackProtocol.Keeps h (.checkIn address) (newCheckinHandler address) .fresh s := by
  refine post_arrival ?_
  rw [Protocol.Keeps, answerErrors, Prog.sat_tryCatch]
  refine Prog.sat_mono (Q := fun _ ph s₀ s => PostStep h (.checkIn address) ph s₀ none s)
    (E := fun _ (ph : Post) s₀ s => ph = .fresh ∧ s = s₀) ?_ (fun _ _ _ _ hQ => hQ)
    fun x ph s₀ s hx => ?_
  swap
  · rcases hx with ⟨rfl, rfl⟩
    exact post_answered x .fresh s s (Or.inl ⟨rfl, rfl⟩)
  refine Prog.sat_bind.2 (sat_context ?_)
  split
  · exact ⟨rfl, rfl⟩
  next cctx hwait =>
  dsimp only
  split
  · exact ⟨rfl, rfl⟩
  -- the answer, and its acknowledgement
  have hT : ∀ s' : HandlerContext, s'.generation = s.generation →
      s'.completionQueue = s.completionQueue →
      s'.session = s.session.map (fun e => (e.1, { e.2 with serverAddress := address })) →
      Callbacks.of s' = Callbacks.of s := by
    intro s' hgeneration hqueue hsession
    unfold Callbacks.of
    rw [hgeneration, hqueue, hsession, Option.map_map]
    rfl
  refine ⟨.checking, .checking, .checkIn (hT _ rfl rfl rfl), fun _ s₁ _ => ?_⟩
  exact ⟨.resuming cctx.coroutine, .resuming,
    .resume (Or.inl ⟨address, rfl, rfl, rfl⟩) rfl rfl, fun _ _ _ => .resumed⟩

theorem posts_checkinDeadline (alarm : Nat) :
    callbackProtocol.Keeps h (.checkinDeadline alarm) checkinDeadlineResumed .fresh s := by
  refine Prog.sat_bind.2 (sat_context ?_)
  split
  · split
    · trivial
    · next cctx hwait =>
        exact ⟨.resuming cctx.coroutine, .resuming, .resume (Or.inr ⟨alarm, rfl, rfl⟩) rfl rfl,
          fun _ _ _ => .resumed⟩
  · exact .rest (Or.inl rfl) rfl

end CheckIn

/-- Every handler keeps to the protocol. -/
theorem keeps_posts [Keccak] (fuel : Nat) (peer : String) (rpc : Rpc) (h : HandlerId)
    (s : HandlerContext) : callbackProtocol.Keeps h rpc (handlerOf fuel peer rpc h) .fresh s := by
  cases rpc with
  | startSession request => exact posts_startSession peer
  | advanceState request => exact posts_advanceState fuel peer
  | inspectState payload => exact posts_inspectState fuel peer
  | finishEpoch request => exact posts_finishEpoch peer
  | deleteEpoch index => exact posts_deleteEpoch peer index
  | endSession => exact posts_endSession peer
  | getSessionStatus => exact posts_getSessionStatus peer
  | getEpochStatus index => exact posts_getEpochStatus peer index
  | checkIn address => exact posts_checkIn address
  | checkinDeadline alarm => exact posts_checkinDeadline alarm

end ServerManager
