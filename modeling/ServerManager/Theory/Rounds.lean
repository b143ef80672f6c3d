import ServerManager.Theory.Posts

/-!
# The Rounds of Every Handler

The handlers that borrow a session keep to the protocol of who resumes whom. They
take its lock, and what they have done to its queries when they leave the scope of
the lock is one of a few things: AdvanceState may have taken the place of a
coroutine, InspectState has put its query there and takes it away again, and
DeleteEpoch, FinishEpoch and EndSession take an epoch or the session away.

## Main definitions

* `Lent`, `Returned`: What holds when a handler throws in the scope, and outside.
* `Surfaced`: What holds in the catch clauses of AdvanceState.
* `Attends`, `Served`, `Failing`, `Foiled`: What holds along the segments of
  InspectState, when it is done, and when it throws.
* `Concluding`: What holds along a segment of FinishEpoch.

## Theorems

* `post_scope`, `posts_borrow`: The scope of the session lock.
* `posts_advanceState`, `posts_inspectState`: The handlers that use the machine.
* `posts_finishEpoch`, `posts_deleteEpoch`, `posts_endSession`: What takes queries away.
-/

namespace ServerManager

open Coroutine

/-! ### The scope of the lock -/

section Scope

variable [Keccak] {h : HandlerId} {rpc : Rpc} {ref : Nat} {ph : Post} {s₀ s : HandlerContext}
  {Q : Unit → Post → HandlerContext → HandlerContext → Prop}
  {E : Exn → Post → HandlerContext → HandlerContext → Prop}

theorem post_arrival {body : Handler Unit} (hbody : callbackProtocol.Keeps h rpc body .fresh s) :
    callbackProtocol.Keeps h rpc (onArrival body) .fresh s := by
  show Prog.Sat callbackProtocol h rpc _ _ (if s.ok then body else Prog.pure ()) .fresh s s
  split
  · exact hbody
  · exact .rest (Or.inl rfl) rfl

theorem post_found {notFound : String} {f : Nat → Handler Unit}
    (hE : ∀ status, E (.finishErrorYieldNone status) .fresh s s)
    (hf : ∀ ref session, s.session = some (ref, session) →
      Prog.Sat callbackProtocol h rpc Q E (f ref) .fresh s s) :
    Prog.Sat callbackProtocol h rpc Q E (findSession notFound >>= f) .fresh s s := by
  simp only [findSession, Prog.bind_eq, Prog.sat_bind]
  refine sat_context ?_
  split
  · next generation session hs => exact hf generation session hs
  · exact hE _

theorem post_overflow {f : Unit → Handler Unit} {session : SessionType}
    (hs : s.session = some (ref, session))
    (hE : ∀ status, E (.finishErrorYieldNone status) .fresh s s)
    (hf : session.activeEpochIndex ≠ 0xFFFFFFFFFFFFFFFF →
      Prog.Sat callbackProtocol h rpc Q E (f ()) .fresh s s) :
    Prog.Sat callbackProtocol h rpc Q E (checkEpochOverflow ref >>= f) .fresh s s := by
  simp only [checkEpochOverflow, Prog.bind_eq, Prog.sat_bind]
  refine sat_session fun session' hs' => ?_
  rw [hs] at hs'
  cases hs'
  split
  · exact hE _
  · next hmax => exact hf hmax

/-- The scope of the session lock, behind the test that refuses a session that is
    already locked. The destructor is part of the postconditions. -/
theorem post_scope {name peer : String} {body : Handler Unit} {session : SessionType}
    (hs : s.session = some (ref, session))
    (hE : ∀ status, E (.finishErrorYieldNone status) .fresh s s)
    (hbody : ∀ s', Amid ref .fresh s s' → Prog.Sat callbackProtocol h rpc
      (fun _ => Prog.Sat callbackProtocol h rpc Q E (modifySession ref (sessionLockField.set false)))
      (fun x => Prog.Sat callbackProtocol h rpc (fun _ => E x) E
        (modifySession ref (sessionLockField.set false))) body .fresh s s') :
    Prog.Sat callbackProtocol h rpc Q E (withSessionLock ref name peer body) .fresh s s := by
  simp only [withSessionLock, autoLock, LockField.acquire, Prog.bind_eq, Prog.sat_bind]
  refine sat_session fun session' hs' => ?_
  rw [hs] at hs'
  cases hs'
  split
  · exact hE _
  next hfree =>
    simp only [Prog.sat_bind]
    refine sat_session fun session' hs' => ?_
    rw [hs] at hs'
    cases hs'
    split
    · next hlocked => exact absurd hlocked hfree
    refine sat_modify fun session' hs' => ?_
    rw [hs] at hs'
    cases hs'
    rw [Prog.sat_andFinally]
    have hlock : session.sessionLock = false := Bool.eq_false_iff.2 hfree
    have ha : Amid ref .fresh s
        { s with session := some (ref, sessionLockField.set true session) } :=
      ⟨.fresh (table_of hs) rfl hlock, relocks_lock true hs, fun _ => Post.noConfusion⟩
    refine Prog.sat_bind.2 (sat_modify fun session' hs' => hbody _ (Tracks.congr ha ?_))
    exact callbacks_write (f := fun session => { session with
      sessionLockReason := getSessionLockReason name peer }) hs' rfl rfl rfl

/-! ### Handlers that borrow the session -/

/-- What holds when a handler throws in the scope of the lock. -/
structure Lent (ref : Nat) (rpc : Rpc) (ph : Post) (s₀ s : HandlerContext) : Prop where
  entered : Admitted ref ph (Callbacks.of s₀)
  altered : Alters ref rpc ph (Callbacks.of s₀) (Callbacks.of s)

omit [Keccak] in
theorem Amid.lent (ha : Amid ref ph s₀ s) : Lent ref rpc ph s₀ s := ⟨ha.entered, .relock ha.kept⟩

omit [Keccak] in
/-- The lock is written over whatever else was. -/
theorem Lent.relock {session : SessionType} (hl : Lent ref rpc ph s₀ s) (lock : Bool)
    (hs : s.session = some (ref, session)) :
    Lent ref rpc ph s₀ { s with session := some (ref, sessionLockField.set lock session) } := by
  rcases hl with ⟨hin, hT⟩
  refine ⟨hin, ?_⟩
  have htable := table_of hs
  have hnew : Callbacks.of { s with
      session := some (ref, sessionLockField.set lock session) } = { Callbacks.of s with
        table := some ⟨ref, lock, session.activeEpochIndex, session.callers⟩ } := callbacks_lock lock
  generalize Callbacks.of s₀ = T₀ at hT
  generalize hT' : Callbacks.of s = T at hT htable hnew
  cases hT with
  | relock hkept => exact .relock (relocks_trans hkept (hT' ▸ relocks_lock lock hs))
  | delete hd href hne =>
      injection htable with htable
      injection htable with _ _ hactive hqueries
      rw [hnew, ← hactive, ← hqueries, ← href]
      exact .delete (b := lock) hd rfl hne
  | advance hd href hph =>
      injection htable with htable
      injection htable with _ _ hactive hqueries
      rw [hnew, ← hactive, ← hqueries, ← href]
      exact .advance (b := lock) hd rfl (href.symm ▸ hph)
  | erase => cases htable

/-- The end of a handler that borrowed the session and left its queries alone. -/
theorem Amid.done (ha : Amid ref ph s₀ s) : PostStep h rpc ph s₀ none s :=
  .leave ha.entered (.relock ha.kept) (Or.inl rfl) fun _ k _ hk => absurd hk (ha.calm k)

/-- The answer of a catch clause. -/
theorem post_rejected {status : Status} (hstep : PostStep h rpc ph s₀ (some .idle)
      { s with sent := s.sent ++ [(rpc, .finishWithError status)] }) :
    Prog.Sat callbackProtocol h rpc (fun _ ph s₀ s => PostStep h rpc ph s₀ none s) E
      (finishWithError rpc status) ph s₀ s :=
  ⟨.idle, .refused, hstep, fun _ _ _ => .idle rfl⟩

theorem Lent.rejected (hl : Lent ref rpc ph s₀ s) {status : Status} :
    Prog.Sat callbackProtocol h rpc (fun _ ph s₀ s => PostStep h rpc ph s₀ none s) E
      (finishWithError rpc status) ph s₀ s := by
  have hstep : PostStep h rpc ph s₀ (some .idle)
      { s with sent := s.sent ++ [(rpc, .finishWithError status)] } :=
    .leave hl.entered hl.altered (Or.inr rfl) fun _ _ _ _ ht => by cases ht
  exact post_rejected hstep

theorem post_refused {status : Status} :
    Prog.Sat callbackProtocol h rpc (fun _ ph s₀ s => PostStep h rpc ph s₀ none s) E
      (finishWithError rpc status) .fresh s s :=
  post_rejected (.rest (Or.inr rfl) rfl)

/-- What holds in the catch clause of a handler that answers every error. -/
def Returned (rpc : Rpc) (ph : Post) (s₀ s : HandlerContext) : Prop :=
  (ph = .fresh ∧ s = s₀) ∨ ∃ ref, Lent ref rpc ph s₀ s

theorem post_answered (x : Exn) (ph : Post) (s₀ s : HandlerContext) (hr : Returned rpc ph s₀ s) :
    Prog.Sat callbackProtocol h rpc (fun _ ph s₀ s => PostStep h rpc ph s₀ none s) E
      (match x with
        | .finishErrorYieldNone status => finishWithError rpc status
        | x => finishWithError rpc (unexpectedException x.what)) ph s₀ s := by
  have hreject : ∀ status, Prog.Sat callbackProtocol h rpc
      (fun _ ph s₀ s => PostStep h rpc ph s₀ none s) E (finishWithError rpc status) ph s₀ s := by
    intro status
    rcases hr with ⟨rfl, rfl⟩ | ⟨ref, hl⟩
    · exact post_refused
    · exact hl.rejected
  cases x with
  | finishErrorYieldNone status => exact hreject _
  | taintSession ref status => exact hreject _
  | stdException what => exact hreject _

/-- The destructor of the lock after the body of such a handler. -/
theorem post_unlock (ha : Amid ref ph s₀ s) :
    Prog.Sat callbackProtocol h rpc (fun _ ph s₀ s => PostStep h rpc ph s₀ none s) E
      (modifySession ref (sessionLockField.set false)) ph s₀ s :=
  sat_modify fun _ hs => (ha.relock false hs).done

/-- And after an exception. -/
theorem post_unlockThrown (hl : Lent ref rpc ph s₀ s) :
    Prog.Sat callbackProtocol h rpc (fun _ => Returned rpc) E
      (modifySession ref (sessionLockField.set false)) ph s₀ s :=
  sat_modify fun _ hs => Or.inr ⟨ref, hl.relock false hs⟩

/-- A body in the scope of the lock. -/
abbrev Borrowing (h : HandlerId) (rpc : Rpc) (ref : Nat) (body : Handler Unit) (s₀ : HandlerContext) :
    Prop :=
  ∀ s, Amid ref .fresh s₀ s → Prog.Sat callbackProtocol h rpc (fun _ => Amid ref)
    (fun _ => Lent ref rpc) body .fresh s₀ s

theorem post_locked {name peer : String} {body : Handler Unit} {session : SessionType}
    (hs : s.session = some (ref, session)) (hbody : Borrowing h rpc ref body s) :
    Prog.Sat callbackProtocol h rpc (fun _ ph s₀ s => PostStep h rpc ph s₀ none s)
      (fun _ => Returned rpc) (withSessionLock ref name peer body) .fresh s s :=
  post_scope hs (fun _ => Or.inl ⟨rfl, rfl⟩) fun s' ha => Prog.sat_mono (hbody s' ha)
    (fun _ _ _ _ ha => post_unlock ha) fun _ _ _ _ hl => post_unlockThrown hl

/-- A handler that locks the session for one request and answers every error. -/
theorem posts_borrow {peer name notFound : String} {body : Nat → Handler Unit}
    (hbody : ∀ ref, Borrowing h rpc ref (body ref) s) :
    callbackProtocol.Keeps h rpc (onArrival <| answerErrors rpc do
      let ref ← findSession notFound
      withSessionLock ref name peer (body ref)) .fresh s := by
  refine post_arrival ?_
  rw [Protocol.Keeps, answerErrors, Prog.sat_tryCatch]
  exact Prog.sat_mono (Q := fun _ ph s₀ s => PostStep h rpc ph s₀ none s)
    (post_found (fun _ => Or.inl ⟨rfl, rfl⟩) fun ref _ hs => post_locked hs (hbody ref))
    (fun _ _ _ _ hQ => hQ) post_answered

/-- The answer in the scope of the lock. -/
theorem post_finished {response : Response} (hin : Admitted ref ph (Callbacks.of s₀))
    (hT : Alters ref rpc ph (Callbacks.of s₀) (Callbacks.of s)) :
    Prog.Sat callbackProtocol h rpc (fun _ => Amid ref) E (finish rpc response) ph s₀ s := by
  have hstep : PostStep h rpc ph s₀ (some (.held ref .busy))
      { s with sent := s.sent ++ [(rpc, .finish response)] } := .work hin hT (Or.inl rfl)
  exact ⟨.held ref .busy, .answered, hstep,
    fun _ s₁ _ => amid_refl rfl (fun _ => Place.noConfusion) s₁⟩

theorem calling_amid : Calling h rpc ref (Amid ref) (fun _ => Lent ref rpc) where
  park _ _ _ _ ha := ⟨.held ref .busy, .calling, .work ha.entered (.relock ha.kept) (Or.inl rfl),
    amid_refl rfl fun _ => Place.noConfusion⟩
  throws _ _ _ _ _ ha := ha.lent

end Scope

/-! ### AdvanceState -/

section Advance

variable [Keccak] {h : HandlerId} {request : AdvanceStateRequest} {ref : Nat} {ph : Post}
  {s₀ s : HandlerContext}

/-- What holds in the catch clauses of AdvanceState: it had no reference yet, or it
    gave up its lock, and then the session is there. -/
def Surfaced (request : AdvanceStateRequest) (x : Exn) (ph : Post) (s₀ s : HandlerContext) : Prop :=
  (ph = .fresh ∧ s = s₀ ∧ ∃ status, x = .finishErrorYieldNone status) ∨
    ∃ ref session, s.session = some (ref, session) ∧ Excused request ref x ph s₀ s

/-- The checks of AdvanceState throw nothing that taints the session. -/
theorem tracks_checkAdvanceState :
    Prog.Steady callbackProtocol h (.advanceState request) (Amid ref) (Excused request ref)
      (checkAdvanceState ref request) := by
  refine Prog.steady_of_only (refuses_checkAdvanceState request) ?_ ?_ fun _ _ _ _ _ _ => trivial
  · rintro op ph s₀ s ⟨c, rfl, -, -⟩ ha
    exact ⟨.held ref .busy, .calling, .work ha.entered (.relock ha.kept) (Or.inl rfl),
      fun s₁ _ => amid_refl rfl (fun _ => Place.noConfusion) s₁⟩
  · rintro x ph s₀ s ⟨status, rfl⟩ ha
    exact ⟨ha.entered, ha.kept, about_finishError ref status, Or.inl ⟨status, rfl⟩,
      fun k hk => absurd hk (ha.calm k)⟩

/-- AdvanceState past its acknowledgement. -/
theorem post_pastAck (fuel : Nat) (s : HandlerContext) :
    Prog.Sat callbackProtocol h (.advanceState request) (fun _ => Amid ref) (Excused request ref)
      (do
        sessionLockField.release ref "AdvanceState session lock"
        let e ← getEpoch ref request.activeEpochIndex
        if e.pendingInputs.length = 1 then
          processPendingInputs fuel h ref request.activeEpochIndex) (.held ref .busy) s s := by
  have hamid : Amid ref (.held ref .busy) s s := amid_refl rfl (fun _ => Place.noConfusion) s
  refine Prog.sat_bind.2 (Prog.sat_bind.2 (sat_session fun session hs => ?_))
  split
  · -- somebody has unlocked the session before
    next hlock =>
      refine Engaged.excused ⟨hamid, Post.noConfusion, fun _ session' hs' => Or.inl ?_⟩
        (about_stdException ref _)
      rw [hs] at hs'
      cases hs'
      simpa [sessionLockField] using hlock
  refine sat_modify fun session' hs' => ?_
  rw [hs] at hs'
  cases hs'
  refine Prog.sat_bind.2 (sat_epoch fun session' e hs' he => ?_)
  cases hs'
  have hunlocked := hamid.relock false hs
  show Prog.Sat callbackProtocol h _ _ _ (if _ then _ else _) _ s _
  split
  · next hone =>
      refine Prog.sat_mono (tracks_processPendingInputs fuel _ _ _ ⟨hunlocked, Post.noConfusion,
        fun _ session' hs' => Or.inr ⟨e, ?_, hone⟩⟩) (fun _ _ _ _ he => he.toAmid)
        fun _ _ _ _ hx => hx
      rw [hs] at hs'
      cases hs'
      exact he
  · exact hunlocked

theorem post_advanceStateBody (fuel : Nat) (ha : Amid ref ph s₀ s) :
    Prog.Sat callbackProtocol h (.advanceState request) (fun _ => Amid ref) (Excused request ref)
      (advanceStateBody fuel h ref request) ph s₀ s := by
  refine Prog.sat_bind.2 (Prog.sat_mono (tracks_checkAdvanceState _ _ _ ha)
    (fun input ph s₀ s ha => ?_) fun _ _ _ _ hx => hx)
  have hpush : Prog.Steady callbackProtocol h (.advanceState request) (Amid ref)
      (Excused request ref) (modifyEpoch ref request.activeEpochIndex fun e =>
        { e with pendingInputs := e.pendingInputs ++ [input] }) :=
    tracks_modifyEpoch _ fun _ => rfl
  refine Prog.sat_bind.2 (Prog.sat_mono (hpush ph s₀ s ha) (fun _ ph s₀ s ha => ?_)
    fun _ _ _ _ hx => hx)
  have hstep : PostStep h (.advanceState request) ph s₀ (some (.held ref .busy))
      { s with sent := s.sent ++ [(.advanceState request, .finish .void)] } :=
    .work ha.entered (.relock ha.kept) (Or.inl rfl)
  refine Prog.sat_bind.2 ?_
  exact ⟨.held ref .busy, .answered, hstep, fun _ s₁ _ => post_pastAck fuel s₁⟩

/-- The catch clauses of AdvanceState that taint the session. A handler whose
    check-in went wrong is over here, if there is no query. -/
theorem post_tainted {x : Exn} {status : Status}
    {E : Exn → Post → HandlerContext → HandlerContext → Prop}
    (hx : Excused request ref x ph s₀ s) (hne : ∀ status, x ≠ .finishErrorYieldNone status) :
    Prog.Sat callbackProtocol h (.advanceState request)
      (fun _ ph s₀ s => PostStep h (.advanceState request) ph s₀ none s) E
      (taintAndHandOver h ref status) ph s₀ s := by
  simp only [taintAndHandOver, Prog.bind_eq, Prog.sat_bind]
  refine sat_modify fun session hs => ?_
  have hwrite := callbacks_write (f := fun session => { session with
    tainted := true
    taintStatus := status }) hs rfl rfl rfl
  have hkept : Relocks ref (Callbacks.of s₀) (Callbacks.of { s with session := some (ref, { session with
      tainted := true
      taintStatus := status }) }) := hwrite.symm ▸ hx.kept
  generalize hs' : { session with
    tainted := true
    taintStatus := status } = session' at hkept
  refine sat_session fun session'' hs'' => ?_
  cases hs''
  have hworks := hx.works.resolve_left fun hexists => hexists.elim hne
  have hspoiled : ∀ k, ph = .held ref (.advancing k true) →
      Spoiled ref request.activeEpochIndex k s₀ :=
    fun k hk => (hx.spoiled k hk).resolve_left fun hexists => hexists.elim hne
  -- the end of the handler, when no query waits
  have hdone : ∀ s', Callbacks.of s' = Callbacks.of { s with session := some (ref, session') } →
      session'.callers session'.activeEpochIndex = none →
      PostStep h (.advanceState request) ph s₀ none s' := by
    intro s' hT hnone
    refine .leave hx.entered (.relock (hT.symm ▸ hkept)) (Or.inl rfl) ?_
    rintro request' k hrpc hk -
    cases hrpc
    rcases relocks_table hkept rfl with ⟨d, hd, href, hactive, hqueries, -⟩
    exact ⟨hspoiled k hk, d, hd, href, by rw [hactive, hqueries]; exact hnone⟩
  simp only [epochsAt, Prog.bind_eq, Prog.sat_bind]
  refine sat_session fun session'' hs'' => ?_
  cases hs''
  split
  · next e he =>
      simp only [Prog.pure_eq, Prog.Sat]
      split
      · next q hq =>
          refine Prog.sat_bind.2 (Prog.sat_bind.2 (sat_enqueued ?_))
          refine sat_writeEpoch fun session'' e' hs'' he' => ?_
          cases hs''
          rw [he] at he'
          cases he'
          exact ⟨.leaving, .afterTaint, step_handOver hx.entered hworks hkept rfl (Or.inr rfl) he hq
            (Or.inr rfl),
            fun _ _ _ => .left rfl⟩
      · next hq =>
          refine hdone _ rfl ?_
          rw [callers_at he]
          unfold EpochType.caller
          rw [hq]
          rfl
  · next hnone =>
      have hcallers : session'.callers session'.activeEpochIndex = none := by
        unfold SessionType.callers
        rw [hnone]
        rfl
      refine Prog.sat_bind.2 (sat_modify fun session'' hs'' => hdone _ ?_ hcallers)
      cases hs''
      refine callbacks_write (f := fun session => { session with
        epochs := session.epochs.insert session'.activeEpochIndex EpochType.new }) rfl rfl rfl ?_
      have hnew : EpochType.new.caller = session'.callers session'.activeEpochIndex := hcallers.symm
      rw [callers_insert, hnew, Function.update_eq_self]

theorem posts_advanceState (fuel : Nat) (peer : String) :
    callbackProtocol.Keeps h (.advanceState request) (newAdvanceStateHandler fuel h peer request)
      .fresh s := by
  refine post_arrival ?_
  rw [Protocol.Keeps, Prog.sat_tryCatch]
  have hrefused : ∀ status, Surfaced request (.finishErrorYieldNone status) .fresh s s :=
    fun status => Or.inl ⟨rfl, rfl, status, rfl⟩
  have hbody : Prog.Sat callbackProtocol h (.advanceState request)
      (fun _ ph s₀ s => PostStep h (.advanceState request) ph s₀ none s) (Surfaced request) (do
        let ref ← findSession "session id not found!"
        checkEpochOverflow ref
        withSessionLock ref "AdvanceState" peer (advanceStateBody fuel h ref request)) .fresh s s := by
    refine post_found hrefused fun ref session hs => post_overflow hs hrefused fun _ =>
      post_scope hs hrefused fun s' ha => ?_
    refine Prog.sat_mono (post_advanceStateBody fuel ha) (fun _ _ _ _ ha => post_unlock ha)
      fun x ph s₀ s hx => sat_modify fun session hs => Or.inr ⟨ref, _, rfl, hx.entered, ?_, hx.about,
        hx.works, hx.spoiled⟩
    exact relocks_trans hx.kept (relocks_lock false hs)
  refine Prog.sat_mono hbody (fun _ _ _ _ hQ => hQ) fun x ph s₀ s hx => ?_
  cases x with
  | finishErrorYieldNone status =>
      rcases hx with ⟨rfl, rfl, -⟩ | ⟨ref, session, hs, hexcused⟩
      · exact post_refused
      · exact Lent.rejected ⟨hexcused.entered, .relock hexcused.kept⟩
  | taintSession ref' status =>
      rcases hx with ⟨-, -, status', hne⟩ | ⟨ref, session, hs, hexcused⟩
      · cases hne
      · cases hexcused.about ref' status rfl
        exact post_tainted hexcused fun _ => Exn.noConfusion
  | stdException what =>
      rcases hx with ⟨-, -, status', hne⟩ | ⟨ref, session, hs, hexcused⟩
      · cases hne
      · refine Prog.sat_bind.2 (sat_context ?_)
        rw [hs]
        exact post_tainted hexcused fun _ => Exn.noConfusion

end Advance

/-! ### InspectState -/

/-- What holds along a segment of InspectState while its query is in the epoch. -/
def Attends (ref : Nat) (index : UInt64) (coroutine : Option HandlerId) (ph : Post)
    (s₀ s : HandlerContext) : Prop :=
  Serving ref index coroutine ph (Callbacks.of s₀) (Callbacks.of s)

instance (ref : Nat) (index : UInt64) (coroutine : Option HandlerId) :
    Tracks (Attends ref index coroutine) where
  congr {_ _ _ _} ha hT := by
    unfold Attends
    rw [hT]
    exact ha

section Inspect

variable [Keccak] {h : HandlerId} {payload : Bytes} {ref : Nat} {index : UInt64}
  {coroutine : Option HandlerId} {ph : Post} {s₀ s : HandlerContext}

omit [Keccak] in
theorem attends_refl (s : HandlerContext) :
    Attends ref index coroutine (.held ref (.serving index coroutine)) s s :=
  .serving (relocks_refl _ _)

theorem calling_attends {E : Exn → Post → HandlerContext → HandlerContext → Prop}
    (hE : ∀ x ph s₀ s, Attends ref index coroutine ph s₀ s → E x ph s₀ s) :
    Calling h (.inspectState payload) ref (Attends ref index coroutine) E where
  park _ _ _ _ ha := ⟨.held ref (.serving index coroutine), .inspectCall, .serve ha, attends_refl⟩
  throws _ _ _ _ _ ha := hE _ _ _ _ ha

/-- A wait for a check-in is a wait like any other. -/
theorem attends_trigger {trigger : Handler Unit}
    (hgo : Prog.Steady callbackProtocol h (.inspectState payload) (Attends ref index coroutine)
      (fun _ => Attends ref index coroutine) trigger) :
    Prog.Steady callbackProtocol h (.inspectState payload) (Attends ref index coroutine)
      (fun _ => Attends ref index coroutine) (triggerAndWaitCheckin h ref trigger) := by
  have hmild : ∀ f : HandlerContext → HandlerContext,
      (∀ s, Callbacks.of (f s) = Callbacks.of s) →
      Prog.Steady callbackProtocol h (.inspectState payload) (Attends ref index coroutine)
        (fun _ => Attends ref index coroutine) (Prog.modify (S := handlerSignature) f) :=
    fun f hf ph s₀ s ha => by
      have ha' : Attends ref index coroutine ph s₀ (f s) := Tracks.congr ha (hf s)
      exact ha'
  refine Prog.steady_bind tracks_getSession fun _ => Prog.steady_bind tracks_getContext fun hctx => ?_
  dsimp only
  split
  · exact fun _ _ _ _ => trivial
  refine Prog.steady_bind hgo fun _ => Prog.steady_bind tracks_getSession fun _ =>
    Prog.steady_bind (hmild _ fun _ => rfl) fun _ => Prog.steady_bind ?_ fun _ =>
    Prog.steady_bind (fun ph s₀ s ha => ⟨.held ref (.serving index coroutine), .inspectCheckin,
      .serve ha, fun _ s₁ _ => attends_refl s₁⟩) fun _ => Prog.steady_bind tracks_getSession fun _ =>
    Prog.steady_bind tracks_getContext fun hctx => ?_
  · -- the deadline is armed
    refine Prog.steady_bind tracks_getContext fun hctx => ?_
    split
    · exact tracks_halt _
    · exact hmild _ fun _ => rfl
  · split
    · exact tracks_halt _
    split
    · exact tracks_halt _
    · exact Prog.steady_bind (hmild _ fun _ => rfl) fun _ ph s₀ s ha => ha
    · exact Prog.steady_bind (hmild _ fun _ => rfl) fun _ => tracks_checkServerStub fun ha => ha

theorem attends_runQuery (fuel : Nat) (mcycleIncrement maxMcycle : UInt64) (startTime : Int)
    (maxDeadline : UInt64) (n : Nat) (currentMcycle : UInt64) :
    Prog.Steady callbackProtocol h (.inspectState payload) (Attends ref index coroutine)
      (fun _ => Attends ref index coroutine)
      (runQuery fuel ref index mcycleIncrement maxMcycle startTime maxDeadline n currentMcycle) := by
  have hw : Calling h (.inspectState payload) ref (Attends ref index coroutine)
      (fun _ => Attends ref index coroutine) := calling_attends fun _ _ _ _ ha => ha
  induction n generalizing currentMcycle with
  | zero => exact fun _ _ _ _ => trivial
  | succ n ih =>
      refine Prog.steady_bind (tracks_quiet hw (quiet_runMachine _ _ _ _ _ _)) fun r => ?_
      cases r with
      | none => exact tracks_modifyQuery index fun _ => rfl
      | some r =>
          dsimp only
          -- one case for each way the machine can stop
          split
          · exact tracks_modifyQuery index fun _ => rfl
          split
          · exact tracks_modifyQuery index fun _ => rfl
          split
          · split
            · exact tracks_modifyQuery index fun _ => rfl
            split
            · exact tracks_modifyQuery index fun _ => rfl
            split
            · exact Prog.steady_bind (tracks_modifyQuery index fun _ => rfl) fun _ =>
                Prog.steady_bind (tracks_quiet hw quiet_readTxPayload) fun _ =>
                  tracks_modifyQuery index fun _ => rfl
            · exact tracks_throw hw (about_taint ref _)
          split
          · exact tracks_throw hw (about_taint ref _)
          split
          · exact Prog.steady_bind (tracks_quiet hw quiet_readReport) fun _ =>
              Prog.steady_bind (tracks_modifyQuery index fun _ => rfl) fun _ => ih _
          · exact ih _

theorem attends_processPendingQuery (fuel : Nat) :
    Prog.Steady callbackProtocol h (.inspectState payload) (Attends ref index coroutine)
      (fun _ => Attends ref index coroutine) (processPendingQuery fuel h ref index) := by
  have hw : Calling h (.inspectState payload) ref (Attends ref index coroutine)
      (fun _ => Attends ref index coroutine) := calling_attends fun _ _ _ _ ha => ha
  have hexecute : Prog.Steady callbackProtocol h (.inspectState payload) (Attends ref index coroutine)
      (fun _ => Attends ref index coroutine) (executeQuery fuel ref index) :=
    Prog.steady_bind (tracks_quiet hw quiet_clearRxBuffer) fun _ =>
      Prog.steady_bind tracks_getSession fun _ => Prog.steady_bind (tracks_getQuery index) fun _ =>
      Prog.steady_bind (tracks_quiet hw (quiet_writeEvmAbiString _ _)) fun _ =>
      Prog.steady_bind (tracks_quiet hw quiet_resetIflagsY) fun _ =>
      Prog.steady_bind (tracks_quiet hw (quiet_setHtifYieldAckData _)) fun _ =>
      Prog.steady_bind tracks_getSession fun _ => Prog.steady_bind tracks_getContext fun _ =>
      Prog.steady_bind (tracks_modifyQuery index fun _ => rfl) fun _ => attends_runQuery _ _ _ _ _ _ _
  refine Prog.steady_bind (tracks_getEpoch index) fun e => ?_
  split
  · exact Prog.steady_pure _
  · refine Prog.steady_bind tracks_getSession fun session =>
      Prog.steady_bind (tracks_modifyQuery index fun _ => rfl) fun _ =>
      Prog.steady_bind (tracks_getQuery index) fun q => ?_
    split
    · exact Prog.steady_bind (tracks_modifyQuery index fun _ => rfl) fun _ => Prog.steady_pure _
    · exact Prog.steady_bind (attends_trigger (tracks_callOrTaint hw _ _)) fun _ =>
        Prog.steady_bind hexecute fun _ => attends_trigger (tracks_callOrTaint hw _ _)

/-- What holds when InspectState throws: it had no query yet, or it will put the
    coroutine it found in the query in the completion queue on its way out. -/
def Failing (ref : Nat) (ph : Post) (s₀ s : HandlerContext) : Prop :=
  Amid ref ph s₀ s ∨ ∃ index coroutine T, Serving ref index coroutine ph (Callbacks.of s₀) T ∧
    Relocks ref (T.wake coroutine) (Callbacks.of s)

/-- What holds when it was let go. -/
def Served (ref : Nat) (ph : Post) (s₀ s : HandlerContext) : Prop :=
  ∃ coroutine, ph = .held ref (.served coroutine) ∧
    Relocks ref ((Callbacks.of s₀).wake coroutine) (Callbacks.of s)

/-- The body, up to the acknowledgement of the answer. -/
theorem sat_answering (fuel : Nat) (ha : Attends ref index coroutine ph s₀ s) :
    Prog.Sat callbackProtocol h (.inspectState payload)
      (fun _ ph s₀ s => ph = .held ref (.served coroutine) ∧ s = s₀)
      (fun _ => Attends ref index coroutine) (inspectStateBody fuel h ref index payload) ph s₀ s := by
  have hw : Calling h (.inspectState payload) ref (Attends ref index coroutine)
      (fun _ => Attends ref index coroutine) := calling_attends fun _ _ _ _ ha => ha
  refine Prog.sat_bind.2 (Prog.sat_mono (tracks_tame hw (tame_checkTainted _) _ _ _ ha)
    (fun _ ph s₀ s ha => ?_) fun _ _ _ _ he => he)
  refine Prog.sat_bind.2 (Prog.sat_mono (attends_processPendingQuery fuel _ _ _ ha)
    (fun _ ph s₀ s ha => ?_) fun _ _ _ _ he => he)
  refine Prog.sat_bind.2 (sat_session fun session hs => ?_)
  refine Prog.sat_bind.2 (Prog.sat_mono (tracks_getQuery index _ _ _ ha) (fun q ph s₀ s ha => ?_)
    fun _ _ _ _ he => he)
  -- the query is cleared, and the answer sent
  refine Prog.sat_bind.2 (sat_writeEpoch fun session e hs he => ?_)
  refine ⟨.held ref (.served coroutine), .served, .answer ha (table_of hs) rfl ?_,
    fun _ _ _ => ⟨rfl, rfl⟩⟩
  have hcallers := callers_insert session index { e with pendingQuery := none }
  unfold Callbacks.of
  simp only [Option.map_some, hcallers]
  rfl

/-- Waking up the coroutine that was found in the query. -/
theorem sat_wakeUp {Q : Unit → Post → HandlerContext → HandlerContext → Prop}
    {E : Exn → Post → HandlerContext → HandlerContext → Prop}
    (hQ : ∀ s', Callbacks.of s' = (Callbacks.of s).wake coroutine → Q () ph s₀ s') :
    Prog.Sat callbackProtocol h (.inspectState payload) Q E (autoResume coroutine) ph s₀ s := by
  cases coroutine with
  | none => exact hQ s rfl
  | some g => exact sat_enqueued (hQ _ rfl)

theorem sat_attended (fuel : Nat) (ha : Attends ref index coroutine ph s₀ s) :
    Prog.Sat callbackProtocol h (.inspectState payload) (fun _ => Served ref)
      (fun _ => Failing ref)
      ((inspectStateBody fuel h ref index payload).andFinally (autoResume coroutine)) ph s₀ s := by
  rw [Prog.sat_andFinally]
  refine Prog.sat_mono (sat_answering fuel ha) ?_ fun x ph s₀ s ha => ?_
  · rintro - ph s₀ s ⟨rfl, rfl⟩
    exact sat_wakeUp fun s' hs' => ⟨coroutine, rfl, Or.inl hs'⟩
  · exact sat_wakeUp fun s' hs' => Or.inr ⟨index, coroutine, _, ha, Or.inl hs'⟩

theorem sat_lined (fuel : Nat) (ha : Amid ref .fresh s₀ s) :
    Prog.Sat callbackProtocol h (.inspectState payload) (fun _ => Served ref)
      (fun _ => Failing ref) (inspectStateLocked fuel h ref payload) .fresh s₀ s := by
  simp only [inspectStateLocked, checkTainted, Prog.bind_eq, Prog.sat_bind]
  refine sat_session fun session hs => ?_
  split
  · exact Or.inl ha
  refine sat_session fun session' hs' => ?_
  rw [hs] at hs'
  cases hs'
  split
  · exact Or.inl ha
  next e he =>
  split
  · exact Or.inl ha
  next hquery =>
  have hnone : session.callers session.activeEpochIndex = none := by
    rw [callers_at he]
    unfold EpochType.caller
    rw [Option.not_isSome_iff_eq_none.1 hquery]
    rfl
  rcases relocks_table ha.kept hs with ⟨d, hd, rfl, hactive, hqueries, hsame⟩
  have hfree : d.queries session.activeEpochIndex = none := hqueries ▸ hnone
  have hlock : d.lock = false := by
    rcases ha.entered with @⟨_, d', hd', -, hlock⟩
    rw [hd] at hd'
    cases hd'
    exact hlock
  refine Prog.sat_bind.2 (sat_writeEpoch fun session' e' hs' he' => ?_)
  rw [hs] at hs'
  cases hs'
  rw [he] at he'
  cases he'
  -- the query is in the epoch, with a null coroutine
  have hset : ∀ (e' : EpochType) (co : Option HandlerId), e'.caller = some co →
      Callbacks.of { s with session := some (d.ref, { session with
        epochs := session.epochs.insert session.activeEpochIndex e' }) } =
      { Callbacks.of s₀ with table := some { d with
        lock := session.sessionLock
        queries := Function.update d.queries session.activeEpochIndex (some co) } } := by
    intro e' co hco
    have hgeneration : (Callbacks.of s).generation = (Callbacks.of s₀).generation := by rw [hsame]
    have hqueue : (Callbacks.of s).queue = (Callbacks.of s₀).queue := by rw [hsame]
    dsimp only
    rw [← hgeneration, ← hqueue, hactive, hqueries]
    unfold Callbacks.of
    simp only [Option.map_some, callers_insert, hco]
  split
  · -- nothing waits: the query is processed at once
    refine sat_attended fuel ?_
    have hattends : Attends d.ref session.activeEpochIndex none .fresh s₀ { s with
        session := some (d.ref, { session with
          epochs := session.epochs.insert session.activeEpochIndex
            (setQuery (QueryType.new payload) e) }) } := by
      unfold Attends
      rw [hset _ none rfl]
      exact .fresh hd rfl hlock hactive hfree rfl
    exact hattends
  · -- the handler waits until the inputs let it in
    simp only [modifyQuery, getQuery, Prog.bind_eq, Prog.sat_bind]
    refine sat_epoch fun session' e' hs' he' => ?_
    cases hs'
    rw [AList.lookup_insert] at he'
    cases he'
    split
    · next q hq =>
        cases hq
        simp only [Prog.pure_eq, Prog.Sat]
        refine sat_writeEpoch fun session' e' hs' he' => ?_
        cases hs'
        rw [AList.lookup_insert] at he'
        cases he'
        rw [AList.insert_insert]
        refine ⟨.held d.ref (.queued session.activeEpochIndex), .queued,
          .line hd rfl hlock hactive hfree (hset _ (some h) rfl), fun _ s₁ _ => ?_⟩
        refine Prog.sat_bind.2 (Prog.sat_bind.2 (sat_epoch fun session' e' hs' he' => ?_))
        split
        · next q hq =>
            refine sat_attended fuel ?_
            have hcaller : session'.callers session.activeEpochIndex = some q.coroutine := by
              rw [callers_at he']
              unfold EpochType.caller
              rw [hq]
              rfl
            exact .queued (table_of hs') rfl hcaller (relocks_refl _ _)
        · trivial
    · next hq => cases hq

end Inspect

section Inspected

variable [Keccak] {h : HandlerId} {payload : Bytes} {ref : Nat} {ph : Post} {s₀ s : HandlerContext}

omit [Keccak] in
/-- A write to the session that leaves its queries alone is no matter for a handler
    that failed. -/
theorem Failing.congr {s' : HandlerContext} (hf : Failing ref ph s₀ s)
    (hT : Callbacks.of s' = Callbacks.of s) : Failing ref ph s₀ s' := by
  rcases hf with ha | ⟨index, coroutine, T, hs, hkept⟩
  · exact Or.inl (Tracks.congr ha hT)
  · exact Or.inr ⟨index, coroutine, T, hs, hT ▸ hkept⟩

omit [Keccak] in
theorem Failing.relock {session : SessionType} (hf : Failing ref ph s₀ s)
    (hs : s.session = some (ref, session)) :
    Failing ref ph s₀ { s with session := some (ref, sessionLockField.set false session) } := by
  rcases hf with ha | ⟨index, coroutine, T, hserving, hkept⟩
  · exact Or.inl (ha.relock false hs)
  · exact Or.inr ⟨index, coroutine, T, hserving, relocks_trans hkept (relocks_lock false hs)⟩

/-- The answer of InspectState to an exception. -/
theorem Failing.rejected {status : Status}
    {E : Exn → Post → HandlerContext → HandlerContext → Prop} (hf : Failing ref ph s₀ s) :
    Prog.Sat callbackProtocol h (.inspectState payload)
      (fun _ ph s₀ s => PostStep h (.inspectState payload) ph s₀ none s) E
      (finishWithError (.inspectState payload) status) ph s₀ s := by
  rcases hf with ha | ⟨index, coroutine, T, hs, hkept⟩
  · exact ha.lent.rejected
  · have hstep : PostStep h (.inspectState payload) ph s₀ (some .idle)
        { s with sent := s.sent ++ [(.inspectState payload, .finishWithError status)] } :=
      .fail hs hkept
    exact post_rejected hstep

/-- What holds in the catch clauses of InspectState. -/
def Foiled (x : Exn) (ph : Post) (s₀ s : HandlerContext) : Prop :=
  (ph = .fresh ∧ s = s₀ ∧ ∃ status, x = .finishErrorYieldNone status) ∨
    ∃ ref, Failing ref ph s₀ s

theorem Foiled.rejected {x : Exn} {status : Status}
    {E : Exn → Post → HandlerContext → HandlerContext → Prop} (ht : Foiled x ph s₀ s) :
    Prog.Sat callbackProtocol h (.inspectState payload)
      (fun _ ph s₀ s => PostStep h (.inspectState payload) ph s₀ none s) E
      (finishWithError (.inspectState payload) status) ph s₀ s := by
  rcases ht with ⟨rfl, rfl, -⟩ | ⟨ref, hf⟩
  · exact post_refused
  · exact hf.rejected

/-- The catch clauses of InspectState taint the session and answer. -/
theorem Foiled.tainted {x : Exn} {f : SessionType → SessionType} {status : Status}
    {session : SessionType} {E : Exn → Post → HandlerContext → HandlerContext → Prop}
    (ht : Foiled x ph s₀ s) (hne : ∀ status, x ≠ .finishErrorYieldNone status)
    (hs : s.session = some (ref, session)) (hlock : (f session).sessionLock = session.sessionLock)
    (hactive : (f session).activeEpochIndex = session.activeEpochIndex)
    (hepochs : (f session).epochs = session.epochs) :
    Prog.Sat callbackProtocol h (.inspectState payload)
      (fun _ ph s₀ s => PostStep h (.inspectState payload) ph s₀ none s) E
      (finishWithError (.inspectState payload) status) ph s₀
      { s with session := some (ref, f session) } := by
  have hcallers : (f session).callers = session.callers := by
    unfold SessionType.callers
    rw [hepochs]
  rcases ht with ⟨-, -, status', rfl⟩ | ⟨ref', hf⟩
  · exact absurd rfl (hne status')
  · exact (hf.congr (callbacks_write hs hlock hactive hcallers)).rejected

theorem posts_inspectState (fuel : Nat) (peer : String) :
    callbackProtocol.Keeps h (.inspectState payload) (newInspectStateHandler fuel h peer payload)
      .fresh s := by
  refine post_arrival ?_
  rw [Protocol.Keeps, Prog.sat_tryCatch]
  have hrefused : ∀ status, Foiled (.finishErrorYieldNone status) .fresh s s :=
    fun status => Or.inl ⟨rfl, rfl, status, rfl⟩
  have hbody : Prog.Sat callbackProtocol h (.inspectState payload)
      (fun _ ph s₀ s => PostStep h (.inspectState payload) ph s₀ none s) Foiled (do
        let ref ← findSession "session id not found!"
        withSessionLock ref "InspectState" peer (inspectStateLocked fuel h ref payload)) .fresh s s := by
    refine post_found hrefused fun ref session hs => post_scope hs hrefused fun s' ha => ?_
    refine Prog.sat_mono (sat_lined fuel ha) ?_ fun x ph s₀ s hf =>
      sat_modify fun session hs => Or.inr ⟨ref, hf.relock hs⟩
    rintro - ph s₀ s ⟨coroutine, rfl, hkept⟩
    exact sat_modify fun session hs => .answered (relocks_trans hkept (relocks_lock false hs))
  refine Prog.sat_mono hbody (fun _ _ _ _ hQ => hQ) fun x ph s₀ s ht => ?_
  cases x with
  | finishErrorYieldNone status => exact ht.rejected
  | taintSession ref status =>
      refine Prog.sat_bind.2 (sat_modify fun session hs => ?_)
      exact ht.tainted (fun _ => Exn.noConfusion) hs (f := fun session => { session with
        tainted := true
        taintStatus := status }) rfl rfl rfl
  | stdException what =>
      refine Prog.sat_bind.2 (sat_context ?_)
      cases hs : s.session with
      | none => exact ht.rejected
      | some entry =>
          refine Prog.sat_bind.2 (sat_modify fun session hs => ?_)
          exact ht.tainted (fun _ => Exn.noConfusion) hs (f := fun session => { session with
            tainted := true
            taintStatus := unexpectedException what }) rfl rfl rfl

end Inspected

/-! ### FinishEpoch and DeleteEpoch -/

section Epochs

variable [Keccak] {h : HandlerId} {rpc : Rpc} {request : FinishEpochRequest} {ref : Nat} {ph : Post}
  {s₀ s : HandlerContext}

/-- What holds along a segment of FinishEpoch until the epoch is advanced. The
    number of the active epoch was checked in this segment, or the handler comes
    back from the store call. -/
structure Concluding (ref : Nat) (ph : Post) (s₀ s : HandlerContext) : Prop where
  amid : Amid ref ph s₀ s
  bounded : (ph = .fresh ∧ ∀ d, (Callbacks.of s₀).table = some d → d.active ≠ 0xFFFFFFFFFFFFFFFF) ∨
    ph = .held ref .storing

instance (ref : Nat) : Tracks (Concluding ref) where
  congr hc hT := ⟨Tracks.congr hc.amid hT, hc.bounded⟩

theorem calling_concluding :
    Calling h (.finishEpoch request) ref (Concluding ref) (fun _ => Lent ref (.finishEpoch request)) where
  park _ _ _ _ hc := ⟨.held ref .storing, .storing, .work hc.amid.entered (.relock hc.amid.kept)
    (Or.inr rfl), fun s => ⟨amid_refl rfl (fun _ => Place.noConfusion) s, Or.inr rfl⟩⟩
  throws _ _ _ _ _ hc := hc.amid.lent

/-- Starting the next epoch, which has no query. -/
theorem Concluding.advanced {session : SessionType} (hc : Concluding ref ph s₀ s)
    (hs : s.session = some (ref, session)) (prev : EpochType) :
    Lent ref (.finishEpoch request) ph s₀
      { s with session := some (ref, withNewEpoch prev session) } := by
  refine ⟨hc.amid.entered, ?_⟩
  rcases relocks_table hc.amid.kept hs with ⟨d, hd, href, hactive, hqueries, hsame⟩
  have hgeneration : (Callbacks.of s).generation = (Callbacks.of s₀).generation := by rw [hsame]
  have hqueue : (Callbacks.of s).queue = (Callbacks.of s₀).queue := by rw [hsame]
  have hnew : Callbacks.of { s with session := some (ref, withNewEpoch prev session) } =
      { Callbacks.of s₀ with table := some { d with
        lock := session.sessionLock
        active := d.active + 1
        queries := Function.update d.queries (d.active + 1) none } } := by
    dsimp only
    rw [← hgeneration, ← hqueue, hactive, hqueries, href]
    unfold Callbacks.of withNewEpoch
    simp only [Option.map_some]
    congr 3
    exact callers_insert session _ _
  rw [hnew]
  refine .advance hd href ?_
  rcases hc.bounded with ⟨hfresh, hmax⟩ | hstoring
  · exact Or.inl ⟨hfresh, hmax d hd⟩
  · exact Or.inr hstoring

theorem sat_concluding (hc : Concluding ref ph s₀ s) :
    Prog.Sat callbackProtocol h (.finishEpoch request) (fun _ => Amid ref)
      (fun _ => Lent ref (.finishEpoch request)) (finishEpochLocked ref request) ph s₀ s := by
  have hw : Calling h (.finishEpoch request) ref (Concluding ref)
      (fun _ => Lent ref (.finishEpoch request)) := calling_concluding
  -- after the tests and the store call
  have hclose : ∀ ph s₀ s, Concluding ref ph s₀ s → Prog.Sat callbackProtocol h (.finishEpoch request)
      (fun _ => Amid ref) (fun _ => Lent ref (.finishEpoch request)) (do
        finishEpoch ref request.activeEpochIndex
        startNewEpoch ref request.activeEpochIndex
        let e ← getEpoch ref request.activeEpochIndex
        let response ← ofExcept (setProtoFinishEpochResponse e)
        finish (.finishEpoch request) (.finishEpoch response)) ph s₀ s := by
    intro ph s₀ s hc
    have hfinish : Prog.Steady callbackProtocol h (.finishEpoch request) (Concluding ref)
        (fun _ => Lent ref (.finishEpoch request)) (finishEpoch ref request.activeEpochIndex) := by
      refine Prog.steady_bind (tracks_getEpoch _) fun e =>
        Prog.steady_bind (tracks_modifyEpoch _ fun _ => rfl) fun _ => ?_
      split
      · exact fun _ _ _ hc => hc.amid.lent
      · exact Prog.steady_pure _
    refine Prog.sat_bind.2 (Prog.sat_mono (hfinish ph s₀ s hc) (fun _ ph s₀ s hc => ?_)
      fun _ _ _ _ he => he)
    simp only [startNewEpoch, Prog.bind_eq, Prog.sat_bind]
    refine sat_epoch fun _ prev _ _ => sat_modify fun session hs => ?_
    have hl : Lent ref (.finishEpoch request) ph s₀ _ := hc.advanced hs prev
    refine sat_epoch fun _ e _ _ => ?_
    cases setProtoFinishEpochResponse e with
    | error what => exact hl
    | ok response => exact post_finished hl.entered hl.altered
  refine Prog.sat_bind.2 (Prog.sat_mono (tracks_tame hw (tame_checkTainted _) ph s₀ s hc)
    (fun _ ph s₀ s hc => ?_) fun _ _ _ _ he => he)
  rw [Prog.bind_eq, Prog.sat_bind]
  refine sat_session fun session hs => ?_
  dsimp only
  split
  · exact hc.amid.lent
  split
  · exact hc.amid.lent
  split
  · exact hc.amid.lent
  split
  · exact hc.amid.lent
  split
  · have hstore : Tame ref (store ref request.storageDirectory) :=
      tame_callOrFail (c := .store request.storageDirectory) rfl _
    exact Prog.sat_bind.2 (Prog.sat_mono (tracks_tame hw hstore ph s₀ s hc)
      (fun _ ph s₀ s hc => hclose ph s₀ s hc) fun _ _ _ _ he => he)
  · exact hclose ph s₀ s hc

theorem posts_finishEpoch (peer : String) :
    callbackProtocol.Keeps h (.finishEpoch request) (newFinishEpochHandler peer request) .fresh s := by
  refine post_arrival ?_
  rw [Protocol.Keeps, answerErrors, Prog.sat_tryCatch]
  have hrefused : ∀ status, (fun _ : Exn => Returned (.finishEpoch request))
      (.finishErrorYieldNone status) .fresh s s := fun _ => Or.inl ⟨rfl, rfl⟩
  refine Prog.sat_mono (Q := fun _ ph s₀ s => PostStep h (.finishEpoch request) ph s₀ none s)
    (post_found hrefused fun ref session hs => post_overflow hs hrefused fun hmax =>
      post_locked hs fun s' ha => sat_concluding ⟨ha, Or.inl ⟨rfl, fun d hd => ?_⟩⟩)
    (fun _ _ _ _ hQ => hQ) post_answered
  rw [table_of hs] at hd
  cases hd
  exact hmax

theorem posts_deleteEpoch (peer : String) (index : UInt64) :
    callbackProtocol.Keeps h (.deleteEpoch index) (newDeleteEpochHandler peer index) .fresh s := by
  refine posts_borrow fun ref s₁ ha => ?_
  simp only [deleteEpochLocked, Prog.bind_eq, Prog.sat_bind]
  refine sat_session fun session hs => ?_
  split
  · exact ha.lent
  split
  · exact ha.lent
  next hactive =>
  refine Prog.sat_bind.2 (sat_modify fun session' hs' => ?_)
  rw [hs] at hs'
  cases hs'
  refine post_finished ha.entered ?_
  rcases relocks_table ha.kept hs with ⟨d, hd, rfl, hd', hqueries, hsame⟩
  have hgeneration : (Callbacks.of s₁).generation = (Callbacks.of s).generation := by rw [hsame]
  have hqueue : (Callbacks.of s₁).queue = (Callbacks.of s).queue := by rw [hsame]
  have hcallers : ({ session with epochs := session.epochs.erase index } : SessionType).callers =
      Function.update session.callers index none := by
    funext i
    unfold SessionType.callers
    by_cases hi : i = index
    · subst hi
      rw [Function.update_self]
      simp only [AList.lookup_erase]
      rfl
    · rw [Function.update_of_ne hi]
      simp only [AList.lookup_erase_ne hi]
  have hnew : Callbacks.of { s₁ with
      session := some (d.ref, { session with epochs := session.epochs.erase index }) } =
      { Callbacks.of s with table := some { d with
        lock := session.sessionLock
        queries := Function.update d.queries index none } } := by
    dsimp only
    rw [← hgeneration, ← hqueue, hd', hqueries]
    unfold Callbacks.of
    simp only [Option.map_some, hcallers]
  rw [hnew]
  exact .delete hd rfl (hd' ▸ fun heq => hactive (Or.inr heq))

/-! ### Status -/

theorem posts_getSessionStatus (peer : String) :
    callbackProtocol.Keeps h .getSessionStatus (newGetSessionStatusHandler peer) .fresh s :=
  posts_borrow fun _ _ ha => Prog.sat_bind.2 (sat_session fun _ _ =>
    post_finished ha.entered (.relock ha.kept))

theorem posts_getEpochStatus (peer : String) (index : UInt64) :
    callbackProtocol.Keeps h (.getEpochStatus index) (newGetEpochStatusHandler peer index)
      .fresh s := by
  refine posts_borrow fun ref s₁ ha => Prog.sat_bind.2 (sat_session fun session hs => ?_)
  split
  · exact ha.lent
  · exact post_finished ha.entered (.relock ha.kept)

/-! ### EndSession -/

/-- The session is erased before the acknowledgement. -/
theorem posts_endSession (peer : String) :
    callbackProtocol.Keeps h .endSession (newEndSessionHandler peer) .fresh s := by
  refine posts_borrow fun ref s₁ ha => ?_
  have hw : Calling h .endSession ref (Amid ref) (fun _ => Lent ref .endSession) := calling_amid
  -- from the last test on
  have hclose : ∀ ph s₀ s, Amid ref ph s₀ s → Prog.Sat callbackProtocol h .endSession
      (fun _ => Amid ref) (fun _ => Lent ref .endSession) (do
        let session ← getSession ref
        if session.processingLock then
          throwFinishError .internal "session is processing inputs!"
        shutdownServer ref
        let session ← getSession ref
        if session.tainted then
          Prog.modify (S := handlerSignature) fun hctx =>
            { hctx with terminated := hctx.terminated ++ [ref] }
        Prog.modify (S := handlerSignature) fun hctx => { hctx with session := none }
        finish .endSession .void) ph s₀ s := by
    intro ph s₀ s ha
    have herase : ∀ ph s₀ s, Amid ref ph s₀ s → Prog.Sat callbackProtocol h .endSession
        (fun _ => Amid ref) (fun _ => Lent ref .endSession) (do
          Prog.modify (S := handlerSignature) fun hctx => { hctx with session := none }
          finish .endSession .void) ph s₀ s := by
      intro ph s₀ s ha
      refine post_finished (s := { s with session := none }) ha.entered ?_
      have hT : Callbacks.of { s with session := none } = { Callbacks.of s₀ with table := none } := by
        rcases ha.kept with hsame | ⟨d, lock, -, -, hsame⟩
        · rw [← hsame]
          rfl
        · have hgeneration : (Callbacks.of s).generation = (Callbacks.of s₀).generation := by
            rw [hsame]
          have hqueue : (Callbacks.of s).queue = (Callbacks.of s₀).queue := by rw [hsame]
          dsimp only
          rw [← hgeneration, ← hqueue]
          rfl
      rw [hT]
      exact .erase
    refine Prog.sat_bind.2 (sat_session fun session hs => ?_)
    dsimp only
    split
    · exact ha.lent
    have hshutdown : Tame ref (shutdownServer ref) := tame_callOrFail (c := .shutdown) rfl _
    refine Prog.sat_bind.2 (Prog.sat_mono (tracks_tame hw hshutdown ph s₀ s ha)
      (fun _ ph s₀ s ha => ?_) fun _ _ _ _ he => he)
    refine Prog.sat_bind.2 (sat_session fun session hs => ?_)
    split
    · have hterminated : Amid ref ph s₀ { s with terminated := s.terminated ++ [ref] } :=
        Tracks.congr ha rfl
      exact herase ph s₀ _ hterminated
    · exact herase ph s₀ s ha
  refine Prog.sat_bind.2 (sat_session fun session hs => ?_)
  dsimp only
  split
  · refine Prog.sat_bind.2 (Prog.sat_mono (tracks_epochsAt _ _ _ _ ha) (fun e ph s₀ s ha => ?_)
      fun _ _ _ _ he => he)
    split
    · exact ha.lent
    split
    · exact ha.lent
    · exact hclose ph s₀ s ha
  · exact hclose _ _ _ ha

end Epochs

end ServerManager
