import ServerManager.Theory.Borrow

/-!
# The Life of a Session

Every handler keeps to the ledger protocol. Six of them borrow the session for
the length of one request. StartSession installs it, works on it alone while the
lock is set, and erases it again if anything goes wrong; EndSession erases it.
CheckIn and the deadline have no reference at all: they look the session and the
check-in entry up by the id.

## Main definitions

* `Opening`: What holds along a segment of StartSession.

## Theorems

* `ledger_advanceState`, `ledger_inspectState`, `ledger_borrow`: The handlers that borrow.
* `ledger_startSession`, `ledger_endSession`: The life of the session.
* `ledger_checkIn`, `ledger_deadline`: The two ends of a check-in.
* `keeps_ledger`: All of them.
-/

namespace ServerManager

open Coroutine

/-! ### Inputs -/

section Release

variable {h : HandlerId} {rpc : Rpc} {ref : Nat} {s : HandlerContext}

/-- The release of the session lock after the answer. The lock may have been
    cleared before. -/
theorem sat_releaseAnswered {Q : Unit → Hold → HandlerContext → HandlerContext → Prop}
    {name : String} {f : Unit → Handler Unit} {s : HandlerContext}
    (hQ : ∀ s', Within ref false (.held ref false .plain) s s' →
      Prog.Sat ledgerProtocol h rpc Q (Thrown ref false) (f ()) (.held ref false .plain) s s') :
    Prog.Sat ledgerProtocol h rpc Q (Thrown ref false) (sessionLockField.release ref name >>= f)
      (.held ref false .plain) s s := by
  have hin : Within ref false (.held ref false .plain) s s := within_refl Spot.noConfusion s
  simp only [LockField.release, Prog.bind_eq, Prog.sat_bind]
  refine sat_borrow hin.valid fun session hs => ?_
  split
  · exact ⟨hin, about_stdException ref _⟩
  · refine sat_write hin.valid fun session' hs' => hQ _ ?_
    rw [hs] at hs'
    cases hs'
    exact (Seen.held false session.processingLock (marked_plain _) (ledger_entry hs)
      (ledger_session s _) (fun _ => rfl) Bool.noConfusion).within

end Release

section Handlers

variable {h : HandlerId} {ref : Nat} {s : HandlerContext}

theorem stays_advanceStateBody [Keccak] (fuel : Nat) (request : AdvanceStateRequest) :
    Stays h (.advanceState request) ref false (advanceStateBody fuel h ref request) := by
  have hcaller : Caller (.advanceState request) ref false := caller_borrow rfl ref
  have hchecks : Stays h (.advanceState request) ref false (checkAdvanceState ref request) :=
    stays_tame hcaller (tame_of_refuses (refuses_checkAdvanceState request))
  refine stays_bind hchecks fun input ph s₀ s hin => ?_
  refine Prog.sat_bind.2 (Prog.sat_mono (firm_modifyEpoch _ _ hin) (fun _ ph s₀ s hf => ?_)
    fun _ _ _ _ he => he)
  have hanswer : Firm ref false ph s₀
      { s with sent := s.sent ++ [(.advanceState request, .finish .void)] } := Carries.congr ref hf rfl
  refine Prog.sat_bind.2 ⟨.held ref false .plain, .answered rfl, hanswer.park rfl Spot.noConfusion,
    fun _ s₁ _ => ?_⟩
  -- the answer was acknowledged
  refine sat_releaseAnswered fun s₂ hin₂ => ?_
  rw [Prog.bind_eq, Prog.sat_bind]
  simp only [getEpoch, Prog.bind_eq, Prog.sat_bind]
  refine sat_borrow hin₂.valid fun session hs => ?_
  split
  · show Prog.Sat ledgerProtocol h _ _ _ (if _ then _ else _) _ s₁ s₂
    split
    · exact within_processPendingInputs fuel _ hin₂
    · exact hin₂
  · exact fun _ => .other rfl

/-- The catch clauses of AdvanceState that taint the session. -/
theorem sat_tainted [Keccak] {request : AdvanceStateRequest} {ph : Hold} {s₀ s : HandlerContext}
    {status : Status} {E : Exn → Hold → HandlerContext → HandlerContext → Prop}
    (hl : Left ref ph s₀ s) :
    Prog.Sat ledgerProtocol h (.advanceState request)
      (fun _ ph s₀ s => ledgerProtocol.Step h (.advanceState request) ph s₀ none s) E
      (taintAndHandOver h ref status) ph s₀ s := by
  have hmodify : Prog.Steady ledgerProtocol h (.advanceState request) (Left ref) E
      (modifySession ref fun session => { session with tainted := true, taintStatus := status }) :=
    stays_modify (fun _ => rfl) fun _ => rfl
  rw [taintAndHandOver, Prog.bind_eq, Prog.sat_bind]
  refine Prog.sat_mono (hmodify _ _ _ hl) (fun _ ph s₀ s hl => ?_) fun _ _ _ _ he => he
  rw [Prog.bind_eq, Prog.sat_bind]
  refine sat_borrow (Carries.valid hl) fun session hs => ?_
  rw [Prog.bind_eq, Prog.sat_bind]
  refine Prog.sat_mono (stays_epochsAt _ _ _ _ hl) (fun e ph s₀ s hl => ?_) fun _ _ _ _ he => he
  split
  · rw [Prog.bind_eq, Prog.sat_bind]
    refine Prog.sat_mono (stays_handOver _ _ _ _ _ hl) (fun _ ph s₀ s hl => ?_)
      fun _ _ _ _ he => he
    exact ⟨.idle, .afterTaint, hl.rest (Or.inr rfl), fun _ s₁ _ => end_idle s₁⟩
  · exact hl.rest (Or.inl rfl)

/-- The session that is there is the one whose lock was given up. -/
theorem Left.same {ph : Hold} {s₀ s : HandlerContext} {ref' : Nat} {session : SessionType}
    (hl : Left ref ph s₀ s) (hs : s.session = some (ref', session)) : Left ref' ph s₀ s := by
  rcases hl.valid with ⟨session', hs'⟩
  rw [hs] at hs'
  cases hs'
  exact hl

theorem sat_epochOverflow {rpc : Rpc} {Q : Unit → Hold → HandlerContext → HandlerContext → Prop}
    {f : Unit → Handler Unit} (hv : Valid ref s)
    (hf : Prog.Sat ledgerProtocol h rpc Q Unwound (f ()) .fresh s s) :
    Prog.Sat ledgerProtocol h rpc Q Unwound (checkEpochOverflow ref >>= f) .fresh s s := by
  simp only [checkEpochOverflow, Prog.bind_eq, Prog.sat_bind]
  refine sat_borrow (fun _ => hv) fun session hs => ?_
  split
  · exact Or.inl ⟨rfl, rfl, _, rfl⟩
  · exact hf

/-- The scope of the lock, seen from the try block around it. -/
theorem sat_locked {rpc : Rpc} {name peer : String} {body : Handler Unit} (hv : Valid ref s)
    (hbody : Stays h rpc ref false body) :
    Prog.Sat ledgerProtocol h rpc
      (fun _ ph s₀ s => ledgerProtocol.Step h rpc ph s₀ none s) Unwound
      (withSessionLock ref name peer body) .fresh s s :=
  Prog.sat_mono (sat_withLock hv hbody) (fun _ _ _ _ hl => hl.rest (Or.inl rfl))
    fun _ _ _ _ hthrown => Or.inr ⟨ref, hthrown⟩

theorem ledger_advanceState [Keccak] (fuel : Nat) (peer : String) (request : AdvanceStateRequest) :
    ledgerProtocol.Keeps h (.advanceState request) (newAdvanceStateHandler fuel h peer request)
      .fresh s := by
  refine keeps_onArrival ?_
  rw [Protocol.Keeps, Prog.sat_tryCatch]
  refine Prog.sat_mono (Q := fun _ ph s₀ s => ledgerProtocol.Step h _ ph s₀ none s)
    (sat_found fun ref hv => sat_epochOverflow hv (sat_locked hv (stays_advanceStateBody _ _)))
    (fun _ _ _ _ hQ => hQ) fun x ph s₀ s hx => ?_
  cases x with
  | finishErrorYieldNone status => exact sat_rejected hx.rest
  | taintSession ref status =>
      rcases hx with ⟨-, -, status', hne⟩ | ⟨ref', hl, habout⟩
      · cases hne
      · cases habout ref status rfl
        exact sat_tainted hl
  | stdException what =>
      rcases hx with ⟨-, -, status', hne⟩ | ⟨ref', hl, -⟩
      · cases hne
      · refine Prog.sat_bind.2 (sat_context ?_)
        split
        · next ref session hs => exact sat_tainted (hl.same hs)
        · exact hl.rest (Or.inl rfl)

/-! ### Queries -/

theorem stays_autoResume (coroutine : Option HandlerId) {rpc : Rpc}
    {E : Exn → Hold → HandlerContext → HandlerContext → Prop} :
    Prog.Steady ledgerProtocol h rpc (Within ref false) E (autoResume coroutine) := by
  cases coroutine with
  | none => exact Prog.steady_pure _
  | some g => exact stays_enqueue ref _

theorem stays_inspectStateBody (fuel : Nat) (index : UInt64) (payload : Bytes) :
    Stays h (.inspectState payload) ref false (inspectStateBody fuel h ref index payload) := by
  have hw : Worker (.inspectState payload) ref false := worker_inspect payload ref
  refine stays_bind (stays_tame hw.toCaller (tame_checkTainted _)) fun _ =>
    stays_bind (stays_processPendingQuery hw _ _) fun _ => stays_bind stays_getSession fun _ =>
    stays_bind (stays_getQuery index) fun _ ph s₀ s hin => ?_
  exact Prog.sat_bind.2 (Prog.sat_mono (firm_modifyEpoch index _ hin)
    (fun _ _ _ _ hf => sat_finished hf rfl _) fun _ _ _ _ he => he)

/-- The destructor that resumes the handler whose place was taken. -/
theorem stays_resumed (fuel : Nat) (index : UInt64) (payload : Bytes)
    (coroutine : Option HandlerId) :
    Stays h (.inspectState payload) ref false
      ((inspectStateBody fuel h ref index payload).andFinally (autoResume coroutine)) := by
  intro ph s₀ s hin
  rw [Prog.sat_andFinally]
  refine Prog.sat_mono (stays_inspectStateBody fuel index payload _ _ _ hin)
    (fun _ _ _ _ hin => stays_autoResume coroutine _ _ _ hin) fun x ph s₀ s hthrown => ?_
  exact Prog.sat_mono (stays_autoResume coroutine _ _ _ hthrown.1)
    (fun _ _ _ _ hin => ⟨hin, hthrown.2⟩) fun _ _ _ _ he => he

theorem stays_inspectStateLocked (fuel : Nat) (payload : Bytes) :
    Stays h (.inspectState payload) ref false (inspectStateLocked fuel h ref payload) := by
  have hw : Worker (.inspectState payload) ref false := worker_inspect payload ref
  refine stays_bind (stays_tame hw.toCaller (tame_checkTainted _)) fun _ =>
    stays_bind stays_getSession fun session => ?_
  dsimp only
  split
  · exact stays_throw (about_finishError ref _)
  · next e he =>
      by_cases hquery : e.pendingQuery.isSome = true
      · simp only [if_pos hquery]
        exact fun _ _ _ hin => ⟨hin, about_finishError ref _⟩
      · simp only [if_neg hquery]
        refine stays_bind (stays_modifyEpoch _ _) fun _ => ?_
        split
        · exact stays_resumed fuel _ payload none
        · intro ph s₀ s hin
          refine Prog.sat_bind.2 (Prog.sat_mono (firm_modifyQuery _ _ hin) (fun _ ph s₀ s hf => ?_)
            fun _ _ _ _ he => he)
          refine ⟨.held ref false .plain, .awaitInputs, hf.park rfl Spot.noConfusion,
            fun _ s₁ _ => ?_⟩
          exact stays_bind (stays_getQuery _) (fun q => stays_resumed fuel _ payload q.coroutine)
            _ _ _ (within_refl Spot.noConfusion s₁)

/-- The catch clauses of InspectState that taint the session. -/
theorem sat_taintRejected {rpc : Rpc} {ph : Hold} {s₀ s : HandlerContext} {status status' : Status}
    {E : Exn → Hold → HandlerContext → HandlerContext → Prop} (hl : Left ref ph s₀ s) :
    Prog.Sat ledgerProtocol h rpc (fun _ ph s₀ s => ledgerProtocol.Step h rpc ph s₀ none s) E
      (modifySession ref (fun session => { session with tainted := true, taintStatus := status }) >>=
        fun _ => finishWithError rpc status') ph s₀ s := by
  have hmodify : Prog.Steady ledgerProtocol h rpc (Left ref) E
      (modifySession ref fun session => { session with tainted := true, taintStatus := status }) :=
    stays_modify (fun _ => rfl) fun _ => rfl
  rw [Prog.bind_eq, Prog.sat_bind]
  exact Prog.sat_mono (hmodify _ _ _ hl)
    (fun _ _ _ _ hl => sat_rejected (hl.rest (Or.inr rfl))) fun _ _ _ _ he => he

theorem ledger_inspectState (fuel : Nat) (peer : String) (payload : Bytes) :
    ledgerProtocol.Keeps h (.inspectState payload) (newInspectStateHandler fuel h peer payload)
      .fresh s := by
  refine keeps_onArrival ?_
  rw [Protocol.Keeps, Prog.sat_tryCatch]
  refine Prog.sat_mono (Q := fun _ ph s₀ s => ledgerProtocol.Step h _ ph s₀ none s)
    (sat_found fun ref hv => sat_locked hv (stays_inspectStateLocked _ _))
    (fun _ _ _ _ hQ => hQ) fun x ph s₀ s hx => ?_
  cases x with
  | finishErrorYieldNone status => exact sat_rejected hx.rest
  | taintSession ref status =>
      rcases hx with ⟨-, -, status', hne⟩ | ⟨ref', hl, habout⟩
      · cases hne
      · cases habout ref status rfl
        exact sat_taintRejected hl
  | stdException what =>
      rcases hx with ⟨-, -, status', hne⟩ | ⟨ref', hl, -⟩
      · cases hne
      · refine Prog.sat_bind.2 (sat_context ?_)
        split
        · next ref session hs => exact sat_taintRejected (hl.same hs)
        · exact sat_rejected (hl.rest (Or.inr rfl))

/-! ### Epochs and reports -/

/-- The catch clauses of a handler that answers every error. -/
theorem sat_answered {rpc : Rpc} {E : Exn → Hold → HandlerContext → HandlerContext → Prop} (x : Exn)
    (ph : Hold) (s₀ s : HandlerContext) (hx : Unwound x ph s₀ s) :
    Prog.Sat ledgerProtocol h rpc (fun _ ph s₀ s => ledgerProtocol.Step h rpc ph s₀ none s) E
      (match x with
        | .finishErrorYieldNone status => finishWithError rpc status
        | x => finishWithError rpc (unexpectedException x.what)) ph s₀ s := by
  cases x with
  | finishErrorYieldNone status => exact sat_rejected hx.rest
  | taintSession ref status => exact sat_rejected hx.rest
  | stdException what => exact sat_rejected hx.rest

/-- A handler that locks the session for one request and answers every error. -/
theorem ledger_borrow {rpc : Rpc} {peer name notFound : String} {body : Nat → Handler Unit}
    (hbody : ∀ ref, Stays h rpc ref false (body ref)) :
    ledgerProtocol.Keeps h rpc (onArrival <| answerErrors rpc do
      let ref ← findSession notFound
      withSessionLock ref name peer (body ref)) .fresh s := by
  refine keeps_onArrival ?_
  rw [Protocol.Keeps, answerErrors, Prog.sat_tryCatch]
  exact Prog.sat_mono (Q := fun _ ph s₀ s => ledgerProtocol.Step h rpc ph s₀ none s)
    (sat_found fun ref hv => sat_locked hv (hbody ref)) (fun _ _ _ _ hQ => hQ) sat_answered

theorem stays_finishEpoch (index : UInt64) {rpc : Rpc} :
    Stays h rpc ref false (finishEpoch ref index) := by
  refine stays_bind (stays_getEpoch index) fun e => stays_bind (stays_modifyEpoch index _) fun _ => ?_
  split
  · exact stays_throw (about_stdException ref _)
  · exact stays_pure _

theorem stays_finishEpochLocked [Keccak] (request : FinishEpochRequest) :
    Stays h (.finishEpoch request) ref false (finishEpochLocked ref request) := by
  have hc : Caller (.finishEpoch request) ref false := caller_borrow rfl ref
  have hrefuse : ∀ {α : Type} {code message} {f : α → Handler Unit},
      Stays h (.finishEpoch request) ref false (throwFinishError code message >>= f) :=
    fun _ _ _ hin => ⟨hin, about_finishError ref _⟩
  have hfinish : Stays h (.finishEpoch request) ref false (do
      finishEpoch ref request.activeEpochIndex
      startNewEpoch ref request.activeEpochIndex
      let e ← getEpoch ref request.activeEpochIndex
      let response ← ofExcept (setProtoFinishEpochResponse e)
      finish (.finishEpoch request) (.finishEpoch response)) := by
    refine stays_bind (stays_finishEpoch _) fun _ =>
      stays_bind (stays_bind (stays_getEpoch _) fun _ => stays_modify (fun _ => rfl) fun _ => rfl)
        fun _ ph s₀ s hin => ?_
    refine Prog.sat_bind.2 (Prog.sat_mono (firm_getEpoch _ hin) (fun e ph s₀ s hf => ?_)
      fun _ _ _ _ he => he)
    cases setProtoFinishEpochResponse e with
    | error what => exact ⟨hf.1, about_stdException ref what⟩
    | ok response => exact sat_finished hf rfl _
  refine stays_bind (stays_tame hc (tame_checkTainted _)) fun _ =>
    stays_bind stays_getSession fun session => ?_
  dsimp only
  split
  · exact stays_throw (about_finishError ref _)
  · next e he =>
      -- the checks on the epoch, in order
      by_cases hstate : e.state ≠ .active
      · simp only [if_pos hstate]
        exact hrefuse
      simp only [if_neg hstate]
      by_cases hpending : (!e.pendingInputs.isEmpty) = true
      · simp only [if_pos hpending]
        exact hrefuse
      simp only [if_neg hpending]
      by_cases hcount : e.processedInputs.length ≠ request.processedInputCountWithinEpoch.toNat
      · simp only [if_pos hcount]
        exact hrefuse
      simp only [if_neg hcount]
      by_cases hdir : request.storageDirectory ≠ ""
      · simp only [if_pos hdir]
        exact stays_bind (stays_tame hc (tame_callOrFail rfl _)) fun _ => hfinish
      · simp only [if_neg hdir]
        exact hfinish

theorem ledger_finishEpoch [Keccak] (peer : String) (request : FinishEpochRequest) :
    ledgerProtocol.Keeps h (.finishEpoch request) (newFinishEpochHandler peer request) .fresh s := by
  refine keeps_onArrival ?_
  rw [Protocol.Keeps, answerErrors, Prog.sat_tryCatch]
  refine Prog.sat_mono (Q := fun _ ph s₀ s => ledgerProtocol.Step h _ ph s₀ none s)
    (sat_found fun ref hv => sat_epochOverflow hv (sat_locked hv (stays_finishEpochLocked request)))
    (fun _ _ _ _ hQ => hQ) sat_answered

theorem stays_deleteEpochLocked (epochIndex : UInt64) :
    Stays h (.deleteEpoch epochIndex) ref false (deleteEpochLocked ref epochIndex) := by
  refine stays_bind stays_getSession fun session => ?_
  dsimp only
  split
  · exact stays_throw (about_finishError ref _)
  · next e he =>
      by_cases hactive : e.state = .active ∨ session.activeEpochIndex = epochIndex
      · simp only [if_pos hactive]
        exact fun _ _ _ hin => ⟨hin, about_finishError ref _⟩
      · simp only [if_neg hactive]
        intro ph s₀ s hin
        refine Prog.sat_bind.2 (sat_write hin.valid fun session' hs => sat_finished ?_ rfl _)
        have hL := ledger_write (f := fun session => { session with
          epochs := session.epochs.erase epochIndex }) hs rfl rfl
        exact ⟨hin.congr hL, _, rfl⟩

theorem ledger_deleteEpoch (peer : String) (epochIndex : UInt64) :
    ledgerProtocol.Keeps h (.deleteEpoch epochIndex) (newDeleteEpochHandler peer epochIndex) .fresh
      s :=
  ledger_borrow fun _ => stays_deleteEpochLocked epochIndex

theorem ledger_getSessionStatus (peer : String) :
    ledgerProtocol.Keeps h .getSessionStatus (newGetSessionStatusHandler peer) .fresh s :=
  ledger_borrow fun _ _ _ _ hin => firm_getSession hin fun _ hf => sat_finished hf rfl _

theorem ledger_getEpochStatus (peer : String) (epochIndex : UInt64) :
    ledgerProtocol.Keeps h (.getEpochStatus epochIndex) (newGetEpochStatusHandler peer epochIndex)
      .fresh s := by
  refine ledger_borrow fun ref ph s₀ s hin => firm_getSession hin fun session hf => ?_
  split
  · exact ⟨hf.1, about_finishError ref _⟩
  · exact sat_finished hf rfl _

end Handlers

/-! ### StartSession -/

/-- What a segment of StartSession has done while the session is locked, once it
    has seen it. In the first segment the handler installed the session, in the
    others it left the ledger alone but for the check-in entry. -/
inductive Opened (ref : Nat) : Hold → HandlerContext → HandlerContext → Prop
  | fresh {s₀ s : HandlerContext} (href : ref = s₀.generation)
      (hs : (Ledger.of s₀).session = none)
      (hL : Ledger.of s = { Ledger.of s₀ with
        session := some ⟨ref, true, false⟩
        generation := s₀.generation + 1 }) :
      Opened ref .fresh s₀ s
  | starting {s₀ s : HandlerContext} {spot : Spot} (hv : Valid ref s₀)
      (hset : Marked spot (Ledger.of s₀)) (hL : Ledger.of s = (Ledger.of s₀).settle spot) :
      Opened ref (.starting ref spot) s₀ s

/-- What holds along such a segment. -/
structure Opening (ref : Nat) (ph : Hold) (s₀ s : HandlerContext) : Prop where
  valid : Borrowed ph s₀ → Valid ref s
  seen : Valid ref s → Opened ref ph s₀ s

/-- The same with the server checked in. -/
def Checking (ref : Nat) (ph : Hold) (s₀ s : HandlerContext) : Prop :=
  ph ≠ .fresh ∧ Opening ref ph s₀ s

/-- Erasing the session now is a step of the protocol. -/
def Closing (h : HandlerId) (request : StartSessionRequest) (ph : Hold) (s₀ s : HandlerContext) :
    Prop :=
  ledgerProtocol.Step h (.startSession request) ph s₀ (some .idle) { s with session := none }

section StartSession

variable {α : Type} {h : HandlerId} {ref : Nat} {ph : Hold} {s₀ s s' : HandlerContext}
  {request : StartSessionRequest}

theorem settle_session (L : Ledger) (spot : Spot) : (L.settle spot).session = L.session := by
  cases spot with
  | plain => rfl
  | trigger => rfl
  | waiting => rfl

theorem borrowed_starting {spot : Spot} : Borrowed (.starting ref spot) s ↔ Valid ref s := by
  refine ⟨fun hb => hb ref rfl, fun hv ref' href' => ?_⟩
  cases href'
  exact hv

theorem Opened.valid (ho : Opened ref ph s₀ s) : Valid ref s := by
  cases ho with
  | fresh href hs hL => exact valid_iff.2 ⟨true, false, by rw [hL]⟩
  | starting hv hset hL =>
      rcases valid_iff.1 hv with ⟨lock, p, hs⟩
      exact valid_iff.2 ⟨lock, p, by rw [hL, settle_session, hs]⟩

theorem Opened.congr (ho : Opened ref ph s₀ s) (hL : Ledger.of s' = Ledger.of s) :
    Opened ref ph s₀ s' := by
  cases ho with
  | fresh href hs hL₀ => exact .fresh href hs (hL.trans hL₀)
  | starting hv hset hL₀ => exact .starting hv hset (hL.trans hL₀)

theorem Opened.opening (ho : Opened ref ph s₀ s) : Opening ref ph s₀ s :=
  ⟨fun _ => ho.valid, fun _ => ho⟩

theorem Opening.congr (ho : Opening ref ph s₀ s) (hL : Ledger.of s' = Ledger.of s) :
    Opening ref ph s₀ s' :=
  ⟨fun hb => (valid_congr hL).2 (ho.valid hb), fun hv => (ho.seen ((valid_congr hL).1 hv)).congr hL⟩

instance (ref : Nat) : Carries ref (Opening ref) where
  valid ho := ho.valid
  congr ho := ho.congr

instance (ref : Nat) : Carries ref (Checking ref) where
  valid hc := hc.2.valid
  congr hc hL := ⟨hc.1, hc.2.congr hL⟩

/-- A resumed segment of StartSession has changed nothing yet. -/
theorem checking_refl (ref : Nat) (s : HandlerContext) :
    Checking ref (.starting ref .plain) s s :=
  ⟨Hold.noConfusion, borrowed_starting.1, fun hv => .starting hv (marked_plain _) rfl⟩

theorem Checking.park (hc : Checking ref ph s₀ s) (hv : Valid ref s) :
    ledgerProtocol.Step h (.startSession request) ph s₀ (some (.starting ref .plain)) s := by
  rcases hc with ⟨hne, ho⟩
  cases ho.seen hv with
  | fresh => exact absurd rfl hne
  | starting hv₀ hset hL =>
      refine ⟨borrowed_starting.2 hv₀, ?_⟩
      rw [hL]
      exact .check hset

theorem Opened.closing (ho : Opened ref ph s₀ s) : Closing h request ph s₀ s := by
  cases ho with
  | fresh href hs hL =>
      refine ⟨borrowed_fresh s₀, ?_⟩
      have hnone : Ledger.of { s with session := none } =
          { Ledger.of s₀ with generation := s₀.generation + 1 } := by
        show { Ledger.of s with session := none } = _
        rw [hL, ← hs]
      rw [hnone]
      exact .abort hs
  | starting hv hset hL =>
      refine ⟨borrowed_starting.2 hv, ?_⟩
      show LedgerStep h _ _ _ _ { Ledger.of s with session := none }
      rw [hL]
      exact .fail hset

/-- Programs that run with the server checked in. -/
abbrev Checks (h : HandlerId) (request : StartSessionRequest) (ref : Nat) (c : Handler α) : Prop :=
  Prog.Steady ledgerProtocol h (.startSession request) (Checking ref) (fun _ => Opening ref) c

theorem checks_tame {c : Handler α} (hc : Tame ref c) : Checks h request ref c := by
  refine Prog.steady_of_only hc ?_ ?_ ?_
  · rintro op ph s₀ s ⟨call, rfl, hcall, hv⟩ hJ
    exact ⟨.starting ref .plain, .startCall hcall, hJ.park hv, fun s₁ _ => checking_refl ref s₁⟩
  · exact fun x ph s₀ s _ hJ => hJ.2
  · rintro x ph s₀ s hx hJ hb
    rcases hx with rfl | ⟨rfl, hlost⟩
    · exact .other rfl
    · exact absurd (hJ.2.valid hb) hlost

theorem tame_checkMemoryRangeConfig (name : String) (config : MemoryRangeConfig) :
    Tame ref (checkMemoryRangeConfig name config) := by
  unfold checkMemoryRangeConfig
  dsimp only
  split
  · exact tame_throwFinishError _ _
  split
  · exact tame_throwFinishError _ _
  split
  · exact tame_throwFinishError _ _
  · exact tame_pure _

theorem tame_checkHtifConfig (htif : HtifConfig) : Tame ref (checkHtifConfig htif) := by
  unfold checkHtifConfig
  split
  · exact tame_throwFinishError _ _
  split
  · exact tame_throwFinishError _ _
  split
  · exact tame_throwFinishError _ _
  · exact tame_pure _

theorem checks_rollupConfig (config : MachineConfig) :
    Checks h request ref (checkRollupConfig ref config) := by
  unfold checkRollupConfig
  split
  · exact checks_tame (tame_throwFinishError _ _)
  · next rollup hrollup =>
      have hranges : Checks h request ref (do
          let txBuffer ← checkMemoryRangeConfig "tx buffer" rollup.txBuffer
          let rxBuffer ← checkMemoryRangeConfig "rx buffer" rollup.rxBuffer
          let inputMetadata ← checkMemoryRangeConfig "input metadata" rollup.inputMetadata
          let voucherHashes ← checkMemoryRangeConfig "voucher hashes" rollup.voucherHashes
          let noticeHashes ← checkMemoryRangeConfig "notice hashes" rollup.noticeHashes
          modifySession ref fun session => { session with memoryRange :=
            { rxBuffer := rxBuffer
              txBuffer := txBuffer
              inputMetadata := inputMetadata
              voucherHashes := voucherHashes
              noticeHashes := noticeHashes } }) :=
        Prog.steady_bind (checks_tame (tame_checkMemoryRangeConfig _ _)) fun _ =>
        Prog.steady_bind (checks_tame (tame_checkMemoryRangeConfig _ _)) fun _ =>
        Prog.steady_bind (checks_tame (tame_checkMemoryRangeConfig _ _)) fun _ =>
        Prog.steady_bind (checks_tame (tame_checkMemoryRangeConfig _ _)) fun _ =>
        Prog.steady_bind (checks_tame (tame_checkMemoryRangeConfig _ _)) fun _ =>
        stays_modify (fun _ => rfl) fun _ => rfl
      dsimp only
      split
      · exact fun _ _ _ hJ => hJ.2
      · exact hranges

theorem tame_checkIsYielded : Tame ref (checkIsYielded ref) := by
  refine tame_bind (tame_callOrFail rfl _) fun currentMcycle =>
    tame_bind (tame_callOrFail rfl _) fun r => ?_
  dsimp only
  by_cases hyield : (!r.iflagsY) = true
  · simp only [if_pos hyield]
    exact tame_throwFinishError _ _
  simp only [if_neg hyield]
  by_cases hmcycle : currentMcycle ≠ r.mcycle
  · simp only [if_pos hmcycle]
    exact tame_throwFinishError _ _
  simp only [if_neg hmcycle]
  refine tame_bind (tame_of_quiet (quiet_checkHtifYieldManual _ _)) fun _ =>
    tame_bind ?_ fun _ => tame_pure _
  unfold checkYieldReasonAccepted
  dsimp only
  split
  · exact tame_throwFinishError _ _
  · exact tame_pure _

/-- The first epoch, the response, and the end of the try block. -/
theorem sat_started [Keccak] {response : Response} (hJ : Checking ref ph s₀ s) :
    Prog.Sat ledgerProtocol h (.startSession request)
      (fun _ ph s₀ s => ph = .starting ref .plain ∧ s₀ = s) (fun _ => Opening ref)
      (startFirstEpoch ref >>= fun _ => finish (.startSession request) response) ph s₀ s := by
  have hhash : Checks h request ref (getRootHash ref) := checks_tame (tame_of_quiet quiet_getRootHash)
  have hfirst : Prog.Sat ledgerProtocol h (.startSession request)
      (fun _ ph s₀ s => Checking ref ph s₀ s ∧ Valid ref s) (fun _ => Opening ref)
      (startFirstEpoch ref) ph s₀ s := by
    refine Prog.sat_bind.2 (sat_borrow hJ.2.valid fun session hs => ?_)
    refine Prog.sat_bind.2 (Prog.sat_mono (hhash _ _ _ hJ) (fun hash ph s₀ s hJ => ?_)
      fun _ _ _ _ he => he)
    refine sat_write hJ.2.valid fun session' hs' => ⟨?_, _, rfl⟩
    have hL := ledger_write (f := fun s => { s with
      epochs := s.epochs.insert session.activeEpochIndex { EpochType.new with
        epochIndex := session.activeEpochIndex
        mostRecentMachineHash := hash } }) hs' rfl rfl
    exact Carries.congr ref hJ hL
  refine Prog.sat_bind.2 (Prog.sat_mono hfirst (fun _ ph s₀ s hJ => ?_) fun _ _ _ _ he => he)
  have hanswer : Checking ref ph s₀ { s with
      sent := s.sent ++ [(.startSession request, .finish response)] } := Carries.congr ref hJ.1 rfl
  exact ⟨.starting ref .plain, .started, hanswer.park hJ.2, fun _ _ _ => ⟨rfl, rfl⟩⟩

theorem tame_checkServerVersion : Tame ref (checkServerVersion ref) := by
  refine tame_bind (tame_callOrFail rfl _) fun version => ?_
  split
  · exact tame_throwFinishError _ _
  · exact tame_pure _

/-- A steady program, and what follows it. -/
theorem sat_checks {c : Handler α} {f : α → Handler Unit}
    {Q : Unit → Hold → HandlerContext → HandlerContext → Prop} (hc : Checks h request ref c)
    (hJ : Checking ref ph s₀ s)
    (hf : ∀ a ph s₀ s, Checking ref ph s₀ s → Prog.Sat ledgerProtocol h (.startSession request) Q
      (fun _ => Opening ref) (f a) ph s₀ s) :
    Prog.Sat ledgerProtocol h (.startSession request) Q (fun _ => Opening ref) (c >>= f) ph s₀ s :=
  Prog.sat_bind.2 (Prog.sat_mono (hc ph s₀ s hJ) hf fun _ _ _ _ he => he)

theorem sat_startSessionChecked [Keccak] (hJ : Checking ref ph s₀ s) :
    Prog.Sat ledgerProtocol h (.startSession request)
      (fun _ ph s₀ s => ph = .starting ref .plain ∧ s₀ = s) (fun _ => Opening ref)
      (startSessionChecked ref request) ph s₀ s :=
  sat_checks (checks_tame tame_checkServerVersion) hJ fun _ _ _ _ hJ =>
    sat_checks (checks_tame (tame_callOrFail rfl _)) hJ fun _ _ _ _ hJ =>
    sat_checks (checks_tame (tame_callOrFail rfl _)) hJ fun _ _ _ _ hJ =>
    sat_checks (checks_tame (tame_checkHtifConfig _)) hJ fun _ _ _ _ hJ =>
    sat_checks (checks_rollupConfig _) hJ fun _ _ _ _ hJ =>
    sat_checks (checks_tame tame_checkIsYielded) hJ fun _ _ _ _ hJ =>
    sat_checks (stays_modify (fun _ => rfl) fun _ => rfl) hJ fun _ _ _ _ hJ => sat_started hJ

/-- The inner try block: the server is shut down before the exception goes on. -/
theorem sat_checked [Keccak] (hJ : Checking ref ph s₀ s) :
    Prog.Sat ledgerProtocol h (.startSession request)
      (fun _ ph s₀ s => ph = .starting ref .plain ∧ s₀ = s) (fun _ => Opening ref)
      ((startSessionChecked ref request).tryCatch (shutdownAndRethrow ref)) ph s₀ s := by
  rw [Prog.sat_tryCatch]
  refine Prog.sat_mono (sat_startSessionChecked hJ) (fun _ _ _ _ hQ => hQ) fun x ph s₀ s ho => ?_
  rw [shutdownAndRethrow, Prog.bind_eq, Prog.sat_bind]
  refine sat_borrow ho.valid fun session hs => ?_
  split
  · exact ho
  · exact fun _ => .other rfl

/-- The entry is erased once the check-in arrived, whatever it says. -/
theorem checking_erased {cctx : CheckinContext} {status : Bool}
    (hwait : s.waitingCheckin = some cctx) (hstatus : cctx.status = some status) :
    Checking ref (.starting ref .waiting) s { s with
      waitingCheckin := none
      alarms := cancelAlarm s.alarms cctx.alarm } := by
  refine ⟨Hold.noConfusion, borrowed_starting.1, fun hv =>
    .starting hv (fun _ => ⟨cctx, status, hwait, hstatus⟩) ?_⟩
  unfold Ledger.settle Ledger.erase Ledger.of
  simp only [hwait]

/-- The registration of the first wait. -/
theorem Opened.install (hnew : Opened ref .fresh s₀ s) (hwait : s.waitingCheckin = none) :
    LedgerStep h (.startSession request) .fresh (Ledger.of s₀) (some (.starting ref .waiting))
      ((Ledger.of s).register h) := by
  cases hnew with
  | fresh href hs hL =>
      have hnone : (Ledger.of s₀).waiting = none := by
        rw [← hwait]
        exact (congrArg Ledger.waiting hL).symm
      rw [hL, href]
      exact .install hs hnone

/-- The wait for the first check-in, up to the end of the try block. -/
theorem sat_spawned [Keccak] (hnew : Opened ref .fresh s₀ s) :
    Prog.Sat ledgerProtocol h (.startSession request)
      (fun _ ph s₀ s => ph = .starting ref .plain ∧ s₀ = s) (fun _ => Opening ref)
      (triggerAndWaitCheckin h ref spawnServer >>= fun _ =>
        (startSessionChecked ref request).tryCatch (shutdownAndRethrow ref)) .fresh s₀ s := by
  simp only [triggerAndWaitCheckin, Prog.bind_eq, Prog.sat_bind]
  refine sat_borrow (fun _ => hnew.valid) fun session hs => ?_
  show Prog.Sat ledgerProtocol h _ _ _ (if s.waitingCheckin.isSome = true then _ else _) .fresh s₀ s
  split
  · next hsome =>
      refine fun _ => .waiting rfl ?_
      cases hnew with
      | fresh href hs₀ hL =>
          have hwait : s.waitingCheckin = (Ledger.of s₀).waiting := congrArg Ledger.waiting hL
          show (Ledger.of s₀).waiting ≠ none
          rw [← hwait]
          exact Option.isSome_iff_ne_none.1 hsome
  · next hnone =>
      rw [Prog.sat_bind]
      refine Prog.sat_bind.2 (sat_context ?_)
      split
      · exact hnew.opening
      · -- the process was spawned
        simp only [Prog.pure_eq, Prog.Sat, Prog.sat_bind]
        refine sat_borrow (fun _ => hnew.valid) fun session' hs' => ?_
        refine ⟨.starting ref .waiting, .startCheckin, ⟨borrowed_fresh s₀, hnew.install ?_⟩,
          fun _ s₂ _ => ?_⟩
        · exact Option.not_isSome_iff_eq_none.1 hnone
        -- the check-in or the deadline resumed the handler
        refine sat_borrow borrowed_starting.1 fun session₂ hs₂ => ?_
        refine sat_context ?_
        cases hwait : s₂.waitingCheckin with
        | none => exact fun _ => .erased rfl hwait
        | some cctx =>
            dsimp only
            cases hstatus : cctx.status with
            | none => exact fun _ => .unset rfl hwait hstatus
            | some status =>
                have herased : Checking ref (.starting ref .waiting) s₂ _ :=
                  checking_erased hwait hstatus
                cases status with
                | false => exact herased.2
                | true =>
                    have hstub : Checks h request ref (checkServerStub ref) :=
                      stays_checkServerStub fun hJ => hJ.2
                    have hrest := Prog.sat_mono (hstub _ _ _ herased)
                      (fun _ ph s₀ s hJ => @sat_checked h ref ph s₀ s request _ hJ)
                      fun _ _ _ _ he => he
                    exact Prog.sat_bind.2 hrest

/-- The destructor of the lock, when something went wrong. -/
theorem sat_closed {E : Exn → Hold → HandlerContext → HandlerContext → Prop}
    (ho : Opening ref ph s₀ s) :
    Prog.Sat ledgerProtocol h (.startSession request) (fun _ => Closing h request) E
      (modifySession ref (sessionLockField.set false)) ph s₀ s := by
  refine sat_write ho.valid fun session hs => ?_
  exact (ho.seen ⟨session, hs⟩).closing

/-- The destructor of the lock, when the session was started. -/
theorem sat_opened {E : Exn → Hold → HandlerContext → HandlerContext → Prop} :
    Prog.Sat ledgerProtocol h (.startSession request)
      (fun _ ph s₀ s => ledgerProtocol.Step h (.startSession request) ph s₀ none s) E
      (modifySession ref (sessionLockField.set false)) (.starting ref .plain) s s := by
  refine sat_write borrowed_starting.1 fun session hs => ⟨borrowed_starting.2 ⟨session, hs⟩, ?_⟩
  have hentry := ledger_entry hs
  exact .started hentry

/-- What holds in the first segment once the lock is set. -/
def Installing (ref : Nat) (ph : Hold) (s₀ s : HandlerContext) : Prop :=
  ph = .fresh ∧ Opened ref ph s₀ s

instance (ref : Nat) : Carries ref (Installing ref) where
  valid hi _ := hi.2.valid
  congr hi hL := ⟨hi.1, hi.2.congr hL⟩

/-- The checks on the request only refuse it. -/
theorem only_checkRequest (session : SessionType) (s : HandlerContext) :
    Prog.Only (S := handlerSignature) (fun _ _ => False) (fun _ => True) (fun _ _ => False)
      (checkRequest session request) s := by
  unfold checkRequest
  repeat' split
  all_goals trivial

theorem installing_checkRequest (session : SessionType) :
    Prog.Steady ledgerProtocol h (.startSession request) (Installing ref) (fun _ => Opening ref)
      (checkRequest session request) :=
  Prog.steady_of_only (only_checkRequest session) (fun _ _ _ _ hop => absurd hop id)
    (fun _ _ _ _ _ hi => hi.2.opening) fun _ _ _ _ hx => absurd hx id

/-- The work under the lock. -/
theorem sat_opening [Keccak] {peer : String} (hi : Installing ref ph s₀ s) :
    Prog.Sat ledgerProtocol h (.startSession request)
      (fun _ ph s₀ s => ph = .starting ref .plain ∧ s₀ = s) (fun _ => Opening ref)
      (do
        modifySession ref fun session =>
          { session with sessionLockReason := getSessionLockReason "StartSession" peer }
        let session ← getSession ref
        checkRequest session request
        triggerAndWaitCheckin h ref spawnServer
        (startSessionChecked ref request).tryCatch (shutdownAndRethrow ref)) ph s₀ s := by
  have hcheck : Prog.Steady ledgerProtocol h (.startSession request) (Installing ref)
      (fun _ => Opening ref) (do
        modifySession ref fun session =>
          { session with sessionLockReason := getSessionLockReason "StartSession" peer }
        let session ← getSession ref
        checkRequest session request) :=
    Prog.steady_bind (stays_modify (fun _ => rfl) fun _ => rfl) fun _ =>
      Prog.steady_bind stays_getSession fun _ => installing_checkRequest _
  have hsat := Prog.sat_mono (hcheck ph s₀ s hi) (fun _ ph s₀ s hi => by
    rcases hi with ⟨rfl, ho⟩
    exact Prog.sat_bind.1 (@sat_spawned h ref s₀ s request _ ho)) fun _ _ _ _ he => he
  simp only [Prog.bind_eq, Prog.sat_bind] at hsat ⊢
  exact hsat

/-- The body of the try block after the checks on the id. -/
theorem sat_installed [Keccak] {peer : String} (hs : s.session = none) :
    Prog.Sat ledgerProtocol h (.startSession request)
      (fun _ ph s₀ s => ledgerProtocol.Step h (.startSession request) ph s₀ none s)
      (fun _ => Closing h request)
      (installSession request >>= fun ref => autoLock sessionLockField ref "StartSession session lock" do
        modifySession ref fun session =>
          { session with sessionLockReason := getSessionLockReason "StartSession" peer }
        let session ← getSession ref
        checkRequest session request
        triggerAndWaitCheckin h ref spawnServer
        (startSessionChecked ref request).tryCatch (shutdownAndRethrow ref)) .fresh s s := by
  rw [Prog.bind_eq, Prog.sat_bind]
  show Prog.Sat ledgerProtocol h (.startSession request) _ _
    (autoLock sessionLockField s.generation _ _) .fresh s
      { s with
        session := some (s.generation, getProtoSession s.id request)
        generation := s.generation + 1 }
  simp only [autoLock, LockField.acquire, Prog.bind_eq, Prog.sat_bind]
  refine sat_borrow (fun _ => ⟨_, rfl⟩) fun session hsession => ?_
  cases hsession
  split
  · next hlocked => cases hlocked
  · refine sat_write (fun _ => ⟨_, rfl⟩) fun session hsession => ?_
    cases hsession
    rw [Prog.sat_andFinally]
    have hnone : (Ledger.of s).session = none := by
      unfold Ledger.of
      rw [hs]
      rfl
    refine Prog.sat_mono (sat_opening ⟨rfl, .fresh rfl hnone rfl⟩) ?_
      fun _ _ _ _ ho => Prog.sat_mono (sat_closed ho) (fun _ _ _ _ hc => hc) fun _ _ _ _ he => he
    rintro - ph s₀ s ⟨rfl, rfl⟩
    exact sat_opened

theorem ledger_startSession [Keccak] (peer : String) (request : StartSessionRequest) :
    ledgerProtocol.Keeps h (.startSession request) (newStartSessionHandler h peer request) .fresh
      s := by
  refine keeps_onArrival ?_
  rw [Protocol.Keeps, Prog.sat_tryCatch]
  have hbody : Prog.Sat ledgerProtocol h (.startSession request)
      (fun _ ph s₀ s => ledgerProtocol.Step h (.startSession request) ph s₀ none s)
      (fun _ => Closing h request) (startSessionBody h peer request) .fresh s s := by
    rw [startSessionBody, Prog.bind_eq, Prog.sat_bind]
    show Prog.Sat ledgerProtocol h _ _ _ (if s.id = "" then _ else _) .fresh s s
    split
    · exact sat_rejected (rest_fresh s (Or.inr rfl))
    split
    · exact sat_rejected (rest_fresh s (Or.inr rfl))
    · next hnone => exact sat_installed (Option.not_isSome_iff_eq_none.1 hnone)
  refine Prog.sat_mono hbody (fun _ _ _ _ hQ => hQ) fun x ph s₀ s hc => ?_
  -- whatever was thrown, the session is erased
  cases x with
  | finishErrorYieldNone status => exact sat_rejected hc
  | taintSession ref status => exact sat_rejected hc
  | stdException what => exact sat_rejected hc

end StartSession

/-! ### EndSession -/

/-- What holds in the first segment of EndSession under the lock. -/
def Asking (ref : Nat) (ph : Hold) (s₀ s : HandlerContext) : Prop :=
  ph = .fresh ∧ Within ref false ph s₀ s

/-- Answering with an error now is a step of the protocol. -/
def Refusing (h : HandlerId) (ph : Hold) (s₀ s : HandlerContext) : Prop :=
  ledgerProtocol.Step h .endSession ph s₀ (some .idle) s

section EndSession

variable {α : Type} {h : HandlerId} {ref : Nat} {ph : Hold} {s₀ s : HandlerContext}

instance (ref : Nat) : Carries ref (Asking ref) where
  valid ha := ha.2.valid
  congr ha hL := ⟨ha.1, ha.2.congr hL⟩

/-- What EndSession throws under the lock: a refusal, or the failure of the
    shutdown call. -/
def Denied (ref : Nat) (ph : Hold) (s₀ s : HandlerContext) : Prop :=
  Asking ref ph s₀ s ∨ (ph = .ending ref ∧ s₀ = s)

theorem borrowed_ending : Borrowed (.ending ref) s ↔ Valid ref s := by
  refine ⟨fun hb => hb ref rfl, fun hv ref' href' => ?_⟩
  cases href'
  exact hv

/-- The destructor of the lock, when the session stays. -/
theorem sat_denied {E : Exn → Hold → HandlerContext → HandlerContext → Prop} (hd : Denied ref ph s₀ s) :
    Prog.Sat ledgerProtocol h .endSession (fun _ => Refusing h) E
      (modifySession ref (sessionLockField.set false)) ph s₀ s := by
  rcases hd with ⟨rfl, hin⟩ | ⟨rfl, rfl⟩
  · exact Prog.sat_mono (sat_unlock hin) (fun _ _ _ _ hl => hl.rest (Or.inr rfl))
      fun _ _ _ _ he => he
  · refine sat_write borrowed_ending.1 fun session hs => ⟨borrowed_ending.2 ⟨session, hs⟩, ?_⟩
    have hentry := ledger_entry hs
    exact .refuse hentry

/-- The shutdown call, in a session without pending inputs. -/
theorem sat_shutdown (ha : Asking ref ph s₀ s)
    (hfree : ∀ session, s.session = some (ref, session) → session.processingLock = false) :
    Prog.Sat ledgerProtocol h .endSession (fun _ ph s₀ s => ph = .ending ref ∧ s₀ = s)
      (fun _ => Denied ref) (shutdownServer ref) ph s₀ s := by
  unfold shutdownServer callOrFail call
  refine Prog.sat_bind.2 (Prog.sat_bind.2 (sat_borrow ha.2.valid fun session hs => ?_))
  split
  · rcases ha with ⟨rfl, hin⟩
    refine ⟨.ending ref, .shutdown, ⟨borrowed_fresh s₀, ?_⟩, fun reply s₁ _ => ?_⟩
    · cases hin.seen ⟨session, hs⟩ with
      | @fresh _ _ p hout hs₀ hL =>
          have hp : p = false := by
            have hentry := congrArg (fun L => L.session.map SessionEntry.processing) hL
            simp only [Ledger.of, hs, Option.map_some, Option.some.injEq] at hentry
            exact hentry.symm.trans (hfree session hs)
          rw [hL, hp]
          exact .shutdown (hp ▸ hs₀)
    · simp only [Prog.Sat, checkStatusOrFail]
      split
      · exact ⟨rfl, rfl⟩
      · exact Or.inr ⟨rfl, rfl⟩
  · exact fun _ => .other rfl

/-- The part of EndSession after the server was shut down. -/
theorem sat_erased (s : HandlerContext) :
    Prog.Sat ledgerProtocol h .endSession (fun _ ph s₀ s => ph = .ended ref ∧ s₀ = s)
      (fun _ => Denied ref)
      (do
        let session ← getSession ref
        if session.tainted then
          Prog.modify (S := handlerSignature) fun hctx =>
            { hctx with terminated := hctx.terminated ++ [ref] }
        Prog.modify (S := handlerSignature) fun hctx => { hctx with session := none }
        finish .endSession .void) (.ending ref) s s := by
  rw [Prog.bind_eq, Prog.sat_bind]
  refine sat_borrow borrowed_ending.1 fun session hs => ?_
  have hb : Borrowed (.ending ref) s := borrowed_ending.2 ⟨session, hs⟩
  have hstep : LedgerStep h .endSession (.ending ref) (Ledger.of s) (some (.ended ref))
      { Ledger.of s with session := none } := by
    refine .erase ?_
    rw [ledger_entry hs]
    rfl
  split
  · exact ⟨.ended ref, .ended, ⟨hb, hstep⟩, fun _ _ _ => ⟨rfl, rfl⟩⟩
  · exact ⟨.ended ref, .ended, ⟨hb, hstep⟩, fun _ _ _ => ⟨rfl, rfl⟩⟩

theorem sat_endSessionLocked [Keccak] (ha : Asking ref ph s₀ s) :
    Prog.Sat ledgerProtocol h .endSession (fun _ ph s₀ s => ph = .ended ref ∧ s₀ = s)
      (fun _ => Denied ref) (endSessionLocked ref) ph s₀ s := by
  -- the checks and the call, with the session lock taken
  have hshutdown : ∀ ph s₀ s, Asking ref ph s₀ s → Prog.Sat ledgerProtocol h .endSession
      (fun _ ph s₀ s => ph = .ended ref ∧ s₀ = s) (fun _ => Denied ref) (do
        let session ← getSession ref
        if session.processingLock then
          throwFinishError .internal "session is processing inputs!"
        shutdownServer ref
        let session ← getSession ref
        if session.tainted then
          Prog.modify (S := handlerSignature) fun hctx =>
            { hctx with terminated := hctx.terminated ++ [ref] }
        Prog.modify (S := handlerSignature) fun hctx => { hctx with session := none }
        finish .endSession .void) ph s₀ s := by
    intro ph s₀ s ha
    rw [Prog.bind_eq, Prog.sat_bind]
    refine sat_borrow ha.2.valid fun session hs => ?_
    dsimp only
    split
    · exact Or.inl ha
    · next hfree =>
        rw [Prog.bind_eq, Prog.sat_bind]
        refine Prog.sat_mono (sat_shutdown ha fun session' hs' => ?_) ?_ fun _ _ _ _ hd => hd
        · rw [hs] at hs'
          cases hs'
          exact Bool.eq_false_iff.2 hfree
        · rintro - ph s₀ s ⟨rfl, rfl⟩
          exact sat_erased s₀
  rw [endSessionLocked, Prog.bind_eq, Prog.sat_bind]
  refine sat_borrow ha.2.valid fun session hs => ?_
  dsimp only
  split
  · rw [Prog.bind_eq, Prog.sat_bind]
    refine Prog.sat_mono (stays_epochsAt _ _ _ _ ha) (fun e ph s₀ s ha => ?_) fun _ _ _ _ hd => hd
    split
    · exact Or.inl ha
    split
    · exact Or.inl ha
    · exact hshutdown ph s₀ s ha
  · exact hshutdown ph s₀ s ha

/-- The destructor of the lock, once the session is erased. -/
theorem sat_destructor {E : Exn → Hold → HandlerContext → HandlerContext → Prop} :
    Prog.Sat ledgerProtocol h .endSession
      (fun _ ph s₀ s => ledgerProtocol.Step h .endSession ph s₀ none s) E
      (modifySession ref (sessionLockField.set false)) (.ended ref) s s := by
  refine sat_write (fun hb => hb ref rfl) fun session hs => ⟨fun ref' href' => ?_, ?_⟩
  · cases href'
    exact ⟨session, hs⟩
  · have hentry := ledger_entry hs
    exact .ended hentry

theorem ledger_endSession [Keccak] (peer : String) :
    ledgerProtocol.Keeps h .endSession (newEndSessionHandler peer) .fresh s := by
  refine keeps_onArrival ?_
  rw [Protocol.Keeps, answerErrors, Prog.sat_tryCatch]
  refine Prog.sat_mono (Q := fun _ ph s₀ s => ledgerProtocol.Step h .endSession ph s₀ none s)
    (E := fun _ => Refusing h) ?_ (fun _ _ _ _ hQ => hQ) fun x ph s₀ s hr => ?_
  swap
  · cases x with
    | finishErrorYieldNone status => exact sat_rejected hr
    | taintSession ref status => exact sat_rejected hr
    | stdException what => exact sat_rejected hr
  rw [findSession, Prog.bind_eq, Prog.sat_bind]
  refine Prog.sat_bind.2 (sat_context ?_)
  split
  · next ref session hs =>
      refine sat_lockScope ⟨session, hs⟩ (fun _ => rest_fresh s (Or.inr rfl)) fun s' hin => ?_
      have hreason : Prog.Steady ledgerProtocol h .endSession (Asking ref) (fun _ => Denied ref)
          (modifySession ref (fun session => { session with
            sessionLockReason := getSessionLockReason "EndSession" peer })) :=
        stays_modify (fun _ => rfl) fun _ => rfl
      rw [Prog.bind_eq, Prog.sat_bind]
      refine Prog.sat_mono (hreason _ _ _ ⟨rfl, hin⟩) (fun _ ph s₀ s ha => ?_)
        fun _ _ _ _ hd => sat_denied hd
      refine Prog.sat_mono (sat_endSessionLocked ha) ?_ fun _ _ _ _ hd => sat_denied hd
      rintro - ph s₀ s ⟨rfl, rfl⟩
      exact sat_destructor
  · exact rest_fresh s (Or.inr rfl)

end EndSession

/-! ### The two ends of a check-in -/

section CheckIn

variable {h : HandlerId} {s : HandlerContext}

/-- A check-in that is accepted, in the ledger. -/
theorem ledger_accepted {s : HandlerContext} {cctx : CheckinContext} (address : String)
    (hwait : s.waitingCheckin = some cctx) :
    Ledger.of { s with
      session := s.session.map fun e => (e.1, { e.2 with serverAddress := address })
      waitingCheckin := some { cctx with status := some true }
      alarms := cancelAlarm s.alarms cctx.alarm } = (Ledger.of s).cancel.mark true := by
  unfold Ledger.cancel Ledger.mark Ledger.of
  simp only [hwait, Option.map_some, Option.map_map]
  rfl

theorem ledger_checkIn (address : String) :
    ledgerProtocol.Keeps h (.checkIn address) (newCheckinHandler address) .fresh s := by
  refine keeps_onArrival ?_
  rw [Protocol.Keeps, answerErrors, Prog.sat_tryCatch, Prog.bind_eq, Prog.sat_bind]
  refine sat_context ?_
  split
  · exact sat_rejected (rest_fresh s (Or.inr rfl))
  · next cctx hwait =>
      split
      · exact sat_rejected (rest_fresh s (Or.inr rfl))
      · next hsession =>
          refine ⟨.checkedIn cctx.coroutine, .checkedIn, ⟨borrowed_fresh s, ?_⟩, fun _ s₁ _ => ?_⟩
          · have hne : (Ledger.of s).session ≠ none := by
              rintro hnone
              rw [Option.map_eq_none_iff.1 hnone] at hsession
              exact hsession rfl
            have hL := ledger_accepted address hwait
            exact hL ▸ .checkIn hne hwait
          · exact ⟨.resuming cctx.coroutine, .resuming, ⟨borrowed_of_none rfl _, .checkedIn⟩,
              fun _ _ _ => ⟨borrowed_of_none rfl _, .resumed⟩⟩

theorem ledger_deadline (alarm : Nat) :
    ledgerProtocol.Keeps h (.checkinDeadline alarm) checkinDeadlineResumed .fresh s := by
  refine Prog.sat_bind.2 (sat_context ?_)
  split
  · next hok =>
      split
      · next hwait => exact fun _ => .notFound rfl hok hwait
      · next cctx hwait =>
          refine ⟨.resuming cctx.coroutine, .resuming, ⟨borrowed_fresh s, ?_⟩,
            fun _ _ _ => ⟨borrowed_of_none rfl _, .resumed⟩⟩
          have hmark : Ledger.of { s with waitingCheckin := some { cctx with status := some false } } =
              (Ledger.of s).mark false := by
            unfold Ledger.mark Ledger.of
            simp only [hwait, Option.map_some]
          exact hmark ▸ .deadline hok hwait
  · exact rest_fresh s (Or.inl rfl)

end CheckIn

/-! ### All handlers -/

/-- Every handler keeps to the ledger protocol. -/
theorem keeps_ledger [Keccak] (fuel : Nat) (peer : String) (rpc : Rpc) (h : HandlerId)
    (s : HandlerContext) :
    ledgerProtocol.Keeps h rpc (handlerOf fuel peer rpc h) .fresh s := by
  cases rpc with
  | startSession request => exact ledger_startSession peer request
  | advanceState request => exact ledger_advanceState fuel peer request
  | inspectState payload => exact ledger_inspectState fuel peer payload
  | finishEpoch request => exact ledger_finishEpoch peer request
  | deleteEpoch epochIndex => exact ledger_deleteEpoch peer epochIndex
  | endSession => exact ledger_endSession peer
  | getSessionStatus => exact ledger_getSessionStatus peer
  | getEpochStatus epochIndex => exact ledger_getEpochStatus peer epochIndex
  | checkIn address => exact ledger_checkIn address
  | checkinDeadline alarm => exact ledger_deadline alarm

end ServerManager
