import ServerManager.Theory.Borrow
import ServerManager.Theory.Callbacks
import ServerManager.Theory.Phases

/-!
# Work Between Two Resumes

What the handlers do between two points at which they are parked leaves the
queries of the session alone, nearly everywhere. `Tracks` is the kind of
invariant that only looks at them, and every program here that makes no check-in
keeps every such invariant, whatever it does.

The wait for a check-in is the exception, in AdvanceState. The segment after it
must not end in an exception unless the check-in went wrong, so the lemmas about
it follow the code up to the next call.

## Main definitions

* `Tracks`: What only looks at the queries.
* `Calling`: A segment in which a handler can be parked for a call, and throw.
* `Amid`: What holds along a segment of a handler that borrows the session.
* `Advancing`, `Engaged`: The same for AdvanceState, at work on its inputs.
* `CheckedIn`: The check-in came.
* `Excused`: What holds when AdvanceState throws.

## Theorems

* `tracks_modify`, `tracks_modifyEpoch`, `tracks_tame`: What leaves the queries alone.
* `sat_checkedIn`: The trigger, and the check-in it causes.
* `sat_skipped`: After a rollback, an exception is excused.
* `sat_oneInput`, `tracks_processPendingInputs`: One input, and all of them.
* `step_handOver`: AdvanceState takes the place of the coroutine it wakes up.
-/

namespace ServerManager

open Coroutine

/-! ### The queries after a write -/

section Writes

variable {ref : Nat} {s : HandlerContext} {session : SessionType}

theorem table_of (hs : s.session = some (ref, session)) :
    (Callbacks.of s).table =
      some ⟨ref, session.sessionLock, session.activeEpochIndex, session.callers⟩ := by
  unfold Callbacks.of
  rw [hs]
  rfl

/-- A write to the session that leaves its queries alone. -/
theorem callbacks_write {f : SessionType → SessionType} (hs : s.session = some (ref, session))
    (hlock : (f session).sessionLock = session.sessionLock)
    (hactive : (f session).activeEpochIndex = session.activeEpochIndex)
    (hcallers : (f session).callers = session.callers) :
    Callbacks.of { s with session := some (ref, f session) } = Callbacks.of s := by
  unfold Callbacks.of
  rw [hs]
  simp only [Option.map_some, hlock, hactive, hcallers]

/-- Writing an epoch. -/
theorem callers_insert (session : SessionType) (index : UInt64) (e : EpochType) :
    ({ session with epochs := session.epochs.insert index e } : SessionType).callers =
      Function.update session.callers index e.caller := by
  funext i
  unfold SessionType.callers
  by_cases hi : i = index
  · subst hi
    rw [Function.update_self]
    simp only [AList.lookup_insert]
    rfl
  · rw [Function.update_of_ne hi]
    simp only [AList.lookup_insert_ne hi]

theorem callers_at {index : UInt64} {e : EpochType} (he : session.epochs.lookup index = some e) :
    session.callers index = e.caller := by
  unfold SessionType.callers
  rw [he]
  rfl

/-- Writing an epoch without touching the coroutine in its query. -/
theorem callers_keep {index : UInt64} {e : EpochType} {f : EpochType → EpochType}
    (he : session.epochs.lookup index = some e) (hf : (f e).caller = e.caller) :
    ({ session with epochs := session.epochs.insert index (f e) } : SessionType).callers =
      session.callers := by
  rw [callers_insert, hf, ← callers_at he, Function.update_eq_self]

/-- Setting or clearing the lock. -/
theorem callbacks_lock (lock : Bool) :
    Callbacks.of { s with session := some (ref, sessionLockField.set lock session) } =
      { Callbacks.of s with
        table := some ⟨ref, lock, session.activeEpochIndex, session.callers⟩ } := rfl

theorem relocks_refl (ref : Nat) (T : Callbacks) : Relocks ref T T := Or.inl rfl

theorem relocks_trans {T T' T'' : Callbacks} (h : Relocks ref T T') (h' : Relocks ref T' T'') :
    Relocks ref T T'' := by
  rcases h with rfl | ⟨d, lock, hd, href, rfl⟩
  · exact h'
  rcases h' with rfl | ⟨d', lock', hd', href', rfl⟩
  · exact Or.inr ⟨d, lock, hd, href, rfl⟩
  · cases hd'
    exact Or.inr ⟨d, lock', hd, href, rfl⟩

theorem relocks_lock (lock : Bool) (hs : s.session = some (ref, session)) :
    Relocks ref (Callbacks.of s) (Callbacks.of
      { s with session := some (ref, sessionLockField.set lock session) }) :=
  Or.inr ⟨_, lock, table_of hs, rfl, callbacks_lock lock⟩

end Writes

/-- The table of a session whose lock may have been written. -/
theorem relocks_table {ref : Nat} {T : Callbacks} {s : HandlerContext} {session : SessionType}
    (hkept : Relocks ref T (Callbacks.of s)) (hs : s.session = some (ref, session)) :
    ∃ d, T.table = some d ∧ d.ref = ref ∧ d.active = session.activeEpochIndex ∧
      d.queries = session.callers ∧ Callbacks.of s = { T with
        table := some { d with lock := session.sessionLock } } := by
  have htable := table_of hs
  rcases hkept with hsame | ⟨d, lock, hd, href, hsame⟩
  · rw [hsame] at htable
    exact ⟨_, htable, rfl, rfl, rfl, hsame.trans (by rw [← htable])⟩
  · rw [hsame] at htable
    injection htable with htable
    injection htable with _ hlock hactive hqueries
    exact ⟨d, hd, href, hactive, hqueries, hlock ▸ hsame⟩

/-! ### Primitives -/

/-- What holds along a segment and only looks at the queries of the session. -/
class Tracks (J : Post → HandlerContext → HandlerContext → Prop) : Prop where
  congr : ∀ {ph s₀ s s'}, J ph s₀ s → Callbacks.of s' = Callbacks.of s → J ph s₀ s'

section Primitives

variable [Keccak] {α β : Type} {h : HandlerId} {rpc : Rpc} {ref : Nat} {ph : Post}
  {s₀ s : HandlerContext} {E : Exn → Post → HandlerContext → HandlerContext → Prop}

theorem sat_session {Q : SessionType → Post → HandlerContext → HandlerContext → Prop}
    (hQ : ∀ session, s.session = some (ref, session) → Q session ph s₀ s) :
    Prog.Sat callbackProtocol h rpc Q E (getSession ref) ph s₀ s := by
  unfold getSession Prog.Sat
  beta_reduce
  split
  · next generation session hs =>
      split
      · next heq =>
          subst heq
          exact hQ session hs
      · trivial
  · trivial

theorem sat_modify {Q : Unit → Post → HandlerContext → HandlerContext → Prop}
    {f : SessionType → SessionType} (hQ : ∀ session, s.session = some (ref, session) →
      Q () ph s₀ { s with session := some (ref, f session) }) :
    Prog.Sat callbackProtocol h rpc Q E (modifySession ref f) ph s₀ s := by
  unfold modifySession Prog.Sat
  beta_reduce
  split
  · next generation session hs =>
      split
      · next heq =>
          subst heq
          exact hQ session hs
      · trivial
  · trivial

theorem sat_epoch {Q : EpochType → Post → HandlerContext → HandlerContext → Prop} {index : UInt64}
    (hQ : ∀ session e, s.session = some (ref, session) → session.epochs.lookup index = some e →
      Q e ph s₀ s) :
    Prog.Sat callbackProtocol h rpc Q E (getEpoch ref index) ph s₀ s := by
  refine Prog.sat_bind.2 (sat_session fun session hs => ?_)
  split
  · next e he => exact hQ session e hs he
  · trivial

theorem sat_writeEpoch {Q : Unit → Post → HandlerContext → HandlerContext → Prop} {index : UInt64}
    {f : EpochType → EpochType}
    (hQ : ∀ session e, s.session = some (ref, session) → session.epochs.lookup index = some e →
      Q () ph s₀ { s with
        session := some (ref, { session with epochs := session.epochs.insert index (f e) }) }) :
    Prog.Sat callbackProtocol h rpc Q E (modifyEpoch ref index f) ph s₀ s := by
  refine Prog.sat_bind.2 (sat_epoch fun session e hs he => sat_modify fun session' hs' => ?_)
  rw [hs] at hs'
  cases hs'
  exact hQ session e hs he

theorem sat_enqueued {Q : Unit → Post → HandlerContext → HandlerContext → Prop}
    {coroutine : Option HandlerId}
    (hQ : Q () ph s₀ { s with completionQueue := s.completionQueue ++ [coroutine] }) :
    Prog.Sat callbackProtocol h rpc Q E (enqueueCompletionQueue coroutine) ph s₀ s := hQ

section Tracks

variable {J : Post → HandlerContext → HandlerContext → Prop} [Tracks J]

omit [Tracks J] in
theorem tracks_getSession : Prog.Steady callbackProtocol h rpc J E (getSession ref) :=
  fun _ _ _ hJ => sat_session fun _ _ => hJ

omit [Tracks J] in
theorem tracks_getContext : Prog.Steady callbackProtocol h rpc J E getContext := fun _ _ _ hJ => hJ

omit [Tracks J] in
theorem tracks_halt (x : Halt) :
    Prog.Steady callbackProtocol h rpc J E (Prog.halt x : Handler α) := fun _ _ _ _ => trivial

omit [Tracks J] in
theorem tracks_getEpoch (index : UInt64) :
    Prog.Steady callbackProtocol h rpc J E (getEpoch ref index) :=
  fun _ _ _ hJ => sat_epoch fun _ _ _ _ => hJ

/-- A write to the session that leaves its queries alone. -/
theorem tracks_modify {f : SessionType → SessionType}
    (hlock : ∀ session, (f session).sessionLock = session.sessionLock)
    (hactive : ∀ session, (f session).activeEpochIndex = session.activeEpochIndex)
    (hepochs : ∀ session, (f session).epochs = session.epochs) :
    Prog.Steady callbackProtocol h rpc J E (modifySession ref f) := by
  intro ph s₀ s hJ
  refine sat_modify fun session hs =>
    Tracks.congr hJ (callbacks_write hs (hlock session) (hactive session) ?_)
  unfold SessionType.callers
  rw [hepochs]

theorem tracks_modifyEpoch (index : UInt64) {f : EpochType → EpochType}
    (hf : ∀ e, (f e).caller = e.caller) :
    Prog.Steady callbackProtocol h rpc J E (modifyEpoch ref index f) := by
  intro ph s₀ s hJ
  refine sat_writeEpoch fun session e hs he => Tracks.congr hJ ?_
  exact callbacks_write (f := fun session => { session with
    epochs := session.epochs.insert index (f e) }) hs rfl rfl (callers_keep he (hf e))

theorem tracks_epochsAt (index : UInt64) :
    Prog.Steady callbackProtocol h rpc J E (epochsAt ref index) := by
  intro ph s₀ s hJ
  rw [epochsAt, Prog.bind_eq, Prog.sat_bind]
  refine sat_session fun session hs => ?_
  split
  · exact hJ
  · next hnone =>
      refine Prog.sat_bind.2 (sat_modify fun session' hs' => ?_)
      rw [hs] at hs'
      cases hs'
      have hJ' : J ph s₀ { s with session := some (ref, { session with
          epochs := session.epochs.insert index EpochType.new }) } := by
        refine Tracks.congr hJ (callbacks_write (f := fun session => { session with
          epochs := session.epochs.insert index EpochType.new }) hs rfl rfl ?_)
        rw [callers_insert]
        funext i
        by_cases hi : i = index
        · subst hi
          rw [Function.update_self]
          unfold SessionType.callers
          rw [hnone]
          rfl
        · rw [Function.update_of_ne hi]
      exact hJ'

omit [Tracks J] in
theorem tracks_getQuery (index : UInt64) :
    Prog.Steady callbackProtocol h rpc J E (getQuery ref index) := by
  refine Prog.steady_bind (tracks_getEpoch index) fun e => ?_
  split
  · exact Prog.steady_pure _
  · exact tracks_halt _

theorem tracks_modifyQuery (index : UInt64) {f : QueryType → QueryType}
    (hf : ∀ q, (f q).coroutine = q.coroutine) :
    Prog.Steady callbackProtocol h rpc J E (modifyQuery ref index f) := by
  intro ph s₀ s hJ
  rw [modifyQuery, getQuery, Prog.bind_eq, Prog.bind_eq, Prog.sat_bind, Prog.sat_bind]
  refine sat_epoch fun session e hs he => ?_
  split
  · next q hq =>
      refine sat_writeEpoch fun session' e' hs' he' => Tracks.congr hJ ?_
      rw [hs] at hs'
      cases hs'
      rw [he] at he'
      cases he'
      refine callbacks_write (f := fun session => { session with
        epochs := session.epochs.insert index { e with pendingQuery := some (f q) } }) hs rfl rfl
        (callers_keep (f := fun e => { e with pendingQuery := some (f q) }) he ?_)
      unfold EpochType.caller
      rw [hq]
      exact congrArg some (hf q)
  · trivial

theorem tracks_checkServerStub
    (hE : ∀ {status ph s₀ s}, J ph s₀ s → E (.finishErrorYieldNone status) ph s₀ s) :
    Prog.Steady callbackProtocol h rpc J E (checkServerStub ref) := by
  refine Prog.steady_bind tracks_getContext fun hctx =>
    Prog.steady_bind (tracks_modify (fun _ => rfl) (fun _ => rfl) fun _ => rfl) fun _ => ?_
  split
  · exact fun _ _ _ hJ => hE hJ
  · exact Prog.steady_pure _

end Tracks

/-! ### Calls -/

/-- Along such a segment the handler can be parked for a call, and throw. -/
structure Calling (h : HandlerId) (rpc : Rpc) (ref : Nat)
    (J : Post → HandlerContext → HandlerContext → Prop)
    (E : Exn → Post → HandlerContext → HandlerContext → Prop) : Prop where
  park : ∀ c : MachineCall, ∀ ph s₀ s, J ph s₀ s → ∃ ph', PostAt rpc ph' (.call c) ∧
    PostStep h rpc ph s₀ (some ph') s ∧ ∀ s₁, J ph' s₁ s₁
  throws : ∀ x ph s₀ s, About ref x → J ph s₀ s → E x ph s₀ s

theorem tracks_tame {J : Post → HandlerContext → HandlerContext → Prop} {c : Handler α}
    (hw : Calling h rpc ref J E) (hc : Tame ref c) : Prog.Steady callbackProtocol h rpc J E c := by
  refine Prog.steady_of_only hc ?_ ?_ fun _ _ _ _ _ _ => trivial
  · rintro op ph s₀ s ⟨call, rfl, -, -⟩ hJ
    rcases hw.park call ph s₀ s hJ with ⟨ph', hat, hstep, hrefl⟩
    exact ⟨ph', hat, hstep, fun s₁ _ => hrefl s₁⟩
  · exact fun x ph s₀ s hx hJ => hw.throws x ph s₀ s hx hJ

theorem tracks_quiet {J : Post → HandlerContext → HandlerContext → Prop} {c : Handler α}
    (hw : Calling h rpc ref J E) (hc : Quiet ref c) : Prog.Steady callbackProtocol h rpc J E c :=
  tracks_tame hw (tame_of_quiet hc)

/-- A call of any kind, those that make the server check in among them. -/
theorem tracks_callOrTaint {J : Post → HandlerContext → HandlerContext → Prop}
    (hw : Calling h rpc ref J E) (c : MachineCall) (deadline : String) :
    Prog.Steady callbackProtocol h rpc J E (callOrTaint ref c deadline) := by
  intro ph s₀ s hJ
  simp only [callOrTaint, call, Prog.bind_eq, Prog.sat_bind]
  refine sat_session fun session hs => ?_
  split
  · rcases hw.park c ph s₀ s hJ with ⟨ph', hat, hstep, hrefl⟩
    refine ⟨ph', hat, hstep, fun reply s₁ _ => ?_⟩
    simp only [Prog.Sat, checkStatusOrTaint]
    split
    · exact hrefl s₁
    · exact hw.throws _ _ _ _ (about_taint ref _) (hrefl s₁)
  · trivial

theorem tracks_throw {J : Post → HandlerContext → HandlerContext → Prop} {x : Exn}
    (hw : Calling h rpc ref J E) (hx : About ref x) :
    Prog.Steady callbackProtocol h rpc J E (Prog.throw x : Handler α) :=
  fun ph s₀ s hJ => hw.throws x ph s₀ s hx hJ

end Primitives

/-! ### The scope of the session lock -/

/-- What holds along a segment of a handler that borrows the session and left its
    queries alone, unless the segment began after a check-in. -/
structure Amid (ref : Nat) (ph : Post) (s₀ s : HandlerContext) : Prop where
  entered : Admitted ref ph (Callbacks.of s₀)
  kept : Relocks ref (Callbacks.of s₀) (Callbacks.of s)
  calm : ∀ k, ph ≠ .held ref (.advancing k true)

instance (ref : Nat) : Tracks (Amid ref) where
  congr ha hT := ⟨ha.entered, hT ▸ ha.kept, ha.calm⟩

/-- AdvanceState working on its input number `k`, once it made a call. -/
structure Advancing (ref k : Nat) (ph : Post) (s₀ s : HandlerContext) : Prop where
  place : ph = .held ref (.advancing k false)
  kept : Relocks ref (Callbacks.of s₀) (Callbacks.of s)

instance (ref k : Nat) : Tracks (Advancing ref k) where
  congr ha hT := ⟨ha.place, hT ▸ ha.kept⟩

section Scope

variable {ref k : Nat} {ph : Post} {s₀ s : HandlerContext}

theorem amid_refl {place : Place} (hplain : place.plain) (hcalm : ∀ k, place ≠ .advancing k true)
    (s : HandlerContext) : Amid ref (.held ref place) s s := by
  refine ⟨.held hplain, relocks_refl _ _, fun k hk => hcalm k ?_⟩
  cases hk
  rfl

theorem Advancing.refl (ref k : Nat) (s : HandlerContext) :
    Advancing ref k (.held ref (.advancing k false)) s s := ⟨rfl, relocks_refl _ _⟩

theorem Advancing.amid (ha : Advancing ref k ph s₀ s) : Amid ref ph s₀ s := by
  rcases ha with ⟨rfl, hkept⟩
  exact ⟨.held rfl, hkept, fun k' hk => by cases hk⟩

/-- The lock is the handler's own to write. -/
theorem Amid.relock {session : SessionType} (ha : Amid ref ph s₀ s) (lock : Bool)
    (hs : s.session = some (ref, session)) :
    Amid ref ph s₀ { s with session := some (ref, sessionLockField.set lock session) } :=
  ⟨ha.entered, relocks_trans ha.kept (relocks_lock lock hs), ha.calm⟩

end Scope

/-! ### AdvanceState -/

section Advance

variable [Keccak] {α : Type} {h : HandlerId} {request : AdvanceStateRequest} {ref k : Nat}
  {ph : Post} {s₀ s : HandlerContext}

/-- What holds when AdvanceState throws. In the segment after a check-in, only the
    null stub is no reason to doubt it. -/
structure Excused (request : AdvanceStateRequest) (ref : Nat) (x : Exn) (ph : Post)
    (s₀ s : HandlerContext) : Prop where
  entered : Admitted ref ph (Callbacks.of s₀)
  kept : Relocks ref (Callbacks.of s₀) (Callbacks.of s)
  about : About ref x
  works : (∃ status, x = .finishErrorYieldNone status) ∨ Works request ref ph s₀
  spoiled : ∀ k, ph = .held ref (.advancing k true) →
    (∃ status, x = .finishErrorYieldNone status) ∨ Spoiled ref request.activeEpochIndex k s₀

/-- AdvanceState works on the inputs of the epoch, and it is no segment after a
    check-in. -/
structure Engaged (request : AdvanceStateRequest) (ref : Nat) (ph : Post) (s₀ s : HandlerContext) :
    Prop extends Amid ref ph s₀ s where
  works : Works request ref ph s₀

instance (request : AdvanceStateRequest) (ref : Nat) : Tracks (Engaged request ref) where
  congr ha hT := ⟨Tracks.congr ha.toAmid hT, ha.works⟩

omit [Keccak] in
theorem works_held {place : Place} (hplace : place ≠ .busy) (s : HandlerContext) :
    Works request ref (.held ref place) s := by
  refine ⟨Post.noConfusion, fun h => absurd ?_ hplace⟩
  cases h
  rfl

theorem Engaged.excused {x : Exn} (he : Engaged request ref ph s₀ s) (hx : About ref x) :
    Excused request ref x ph s₀ s :=
  ⟨he.entered, he.kept, hx, Or.inr he.works, fun k hk => absurd hk (he.calm k)⟩

omit [Keccak] in
theorem Advancing.engaged (ha : Advancing ref k ph s₀ s) : Engaged request ref ph s₀ s := by
  refine ⟨ha.amid, ?_⟩
  rw [ha.place]
  exact works_held Place.noConfusion s₀

theorem calling_advancing :
    Calling h (.advanceState request) ref (Advancing ref k) (Excused request ref) where
  park _ _ _ _ ha := ⟨.held ref (.advancing k false), .advanceCall,
    .advance ha.amid.entered ha.kept (Or.inl ⟨false, ha.place⟩), Advancing.refl ref k⟩
  throws _ _ _ _ hx ha := ha.engaged.excused hx

/-- A call at whose response nothing is known but that the handler made it. -/
theorem sat_parkedCall (c : MachineCall) (deadline : String)
    (hpark : PostStep h (.advanceState request) ph s₀ (some (.held ref (.advancing k false))) s) :
    Prog.Sat callbackProtocol h (.advanceState request)
      (fun _ ph s₀ s => ph = .held ref (.advancing k false) ∧ s = s₀) (Excused request ref)
      (callOrTaint ref c deadline) ph s₀ s := by
  simp only [callOrTaint, call, Prog.bind_eq, Prog.sat_bind]
  refine sat_session fun session hs => ?_
  split
  · refine ⟨.held ref (.advancing k false), .advanceCall, hpark, fun reply s₁ _ => ?_⟩
    simp only [Prog.Sat, checkStatusOrTaint]
    split
    · exact ⟨rfl, rfl⟩
    · exact (Advancing.refl ref k s₁).engaged.excused (about_taint ref _)
  · trivial

/-- The check-in came, and only the address of the server has changed. -/
structure CheckedIn (ref k : Nat) (ph : Post) (s₀ s : HandlerContext) : Prop where
  place : ph = .held ref (.advancing k true)
  same : Callbacks.of s = Callbacks.of s₀
  epochs : ∃ session session', s₀.session = some (ref, session) ∧
    s.session = some (ref, session') ∧ session'.epochs = session.epochs

omit [Keccak] in
theorem CheckedIn.entered (hc : CheckedIn ref k ph s₀ s) : Admitted ref ph (Callbacks.of s₀) := by
  rw [hc.place]
  exact .held rfl

/-- The next call after a check-in. -/
theorem CheckedIn.park (hc : CheckedIn ref k ph s₀ s) :
    PostStep h (.advanceState request) ph s₀ (some (.held ref (.advancing k false))) s :=
  .advance hc.entered (Or.inl hc.same) (Or.inl ⟨true, hc.place⟩)

theorem Advancing.park (ha : Advancing ref k ph s₀ s) :
    PostStep h (.advanceState request) ph s₀ (some (.held ref (.advancing k false))) s :=
  .advance ha.amid.entered ha.kept (Or.inl ⟨false, ha.place⟩)

/-- A trigger, and the check-in it causes. -/
theorem sat_checkedIn {trigger : Handler Unit}
    (hgo : Prog.Sat callbackProtocol h (.advanceState request)
      (fun _ ph s₀ s => ph = .held ref (.advancing k false) ∧ s = s₀) (Excused request ref)
      trigger ph s₀ s) :
    Prog.Sat callbackProtocol h (.advanceState request) (fun _ => CheckedIn ref k)
      (Excused request ref) (triggerAndWaitCheckin h ref trigger) ph s₀ s := by
  simp only [triggerAndWaitCheckin, Prog.bind_eq, Prog.sat_bind]
  refine sat_session fun session hs => ?_
  show Prog.Sat callbackProtocol h _ _ _ (if s.waitingCheckin.isSome = true then _ else _) ph s₀ s
  split
  · trivial
  refine Prog.sat_bind.2 (Prog.sat_mono hgo ?_ fun _ _ _ _ he => he)
  rintro - - s₁ - ⟨rfl, rfl⟩
  -- the response to the trigger arrived
  simp only [Prog.sat_bind]
  refine sat_session fun session₁ hs₁ => ?_
  refine ⟨.held ref (.advancing k true), .advanceCheckin,
    .advance (.held rfl) (relocks_refl _ _) (Or.inl ⟨false, rfl⟩), fun _ s₂ _ => ?_⟩
  -- the check-in or the deadline resumed the handler
  refine sat_session fun session₂ hs₂ => ?_
  refine sat_context ?_
  cases hwait : s₂.waitingCheckin with
  | none => trivial
  | some cctx =>
      dsimp only
      cases hstatus : cctx.status with
      | none => trivial
      | some status =>
          cases status with
          | false =>
              refine ⟨.held rfl, relocks_refl _ _, about_taint ref _,
                Or.inr (works_held Place.noConfusion s₂), fun k' hk => Or.inr ?_⟩
              exact .failed ⟨cctx, hwait, hstatus⟩
          | true =>
              simp only [checkServerStub, eraseCheckin, Prog.bind_eq, Prog.sat_bind]
              refine sat_modify fun session₃ hs₃ => ?_
              have hs₃' : s₂.session = some (ref, session₃) := hs₃
              have hsame : Callbacks.of { s₂ with
                  waitingCheckin := none
                  alarms := cancelAlarm s₂.alarms cctx.alarm
                  session := some (ref, { session₃ with serverStub := s₂.newStub }) } =
                  Callbacks.of s₂ :=
                callbacks_write (f := fun session => { session with serverStub := s₂.newStub })
                  hs₃' rfl rfl rfl
              show Prog.Sat callbackProtocol h _ _ _ (if !s₂.newStub then _ else _) _ _ _
              split
              · exact ⟨.held rfl, Or.inl hsame, about_finishError ref _, Or.inl ⟨_, rfl⟩,
                  fun k' hk => Or.inl ⟨_, rfl⟩⟩
              · exact ⟨rfl, hsame, session₃, _, hs₃', rfl, rfl⟩

/-! ### One input -/

/-- AdvanceState has begun to work on its input, and if it has made no call yet
    after the check-in, the check-in was a good one. -/
def Underway (ref k : Nat) (ph : Post) (s₀ s : HandlerContext) : Prop :=
  Advancing ref k ph s₀ s ∨ CheckedIn ref k ph s₀ s

theorem Underway.park (hu : Underway ref k ph s₀ s) :
    PostStep h (.advanceState request) ph s₀ (some (.held ref (.advancing k false))) s := by
  rcases hu with ha | hc
  · exact ha.park
  · exact hc.park

theorem sat_clearMemoryRanges (hpark : PostStep h (.advanceState request) ph s₀
      (some (.held ref (.advancing k false))) s) :
    Prog.Sat callbackProtocol h (.advanceState request) (fun _ => Advancing ref k)
      (Excused request ref) (clearMemoryRanges ref) ph s₀ s := by
  refine Prog.sat_bind.2 (sat_session fun session hs => ?_)
  refine Prog.sat_bind.2 (Prog.sat_mono (sat_parkedCall (.replaceMemoryRange _) _ hpark) ?_ fun _ _ _ _ he => he)
  rintro - - - s₁ ⟨rfl, rfl⟩
  exact tracks_quiet calling_advancing (quiet_replaceMemoryRanges _) _ _ _ (Advancing.refl ref k s₁)

theorem sat_runFittingInput (fuel : Nat) (index : UInt64) (epochInputIndex : Nat)
    (input : InputType) (run : InputRun) (hpark : PostStep h (.advanceState request) ph s₀
      (some (.held ref (.advancing k false))) s) :
    Prog.Sat callbackProtocol h (.advanceState request) (fun _ => Advancing ref k)
      (Excused request ref) (runFittingInput fuel ref index epochInputIndex input run) ph s₀ s := by
  refine Prog.sat_bind.2 (Prog.sat_mono (sat_clearMemoryRanges hpark) (fun _ ph s₀ s ha => ?_)
    fun _ _ _ _ he => he)
  have hw : Calling h (.advanceState request) ref (Advancing ref k) (Excused request ref) :=
    calling_advancing
  refine Prog.steady_bind tracks_getSession (fun _ =>
    Prog.steady_bind (tracks_quiet hw (quiet_writeEvmAbiString _ _)) fun _ =>
    Prog.steady_bind tracks_getSession fun _ =>
    Prog.steady_bind (tracks_quiet hw (quiet_writeMemoryRange _ _)) fun _ =>
    Prog.steady_bind (tracks_quiet hw quiet_resetIflagsY) fun _ =>
    Prog.steady_bind (tracks_quiet hw (quiet_checkHtifYieldAckData _)) fun _ =>
    Prog.steady_bind tracks_getSession fun session => Prog.steady_bind tracks_getContext fun hctx =>
    Prog.steady_bind (tracks_quiet hw (quiet_runInput _ _ _ _ _ _ _)) fun run =>
    Prog.steady_bind (tracks_getEpoch index) fun e => tracks_quiet hw ?_) ph s₀ s ha
  dsimp only
  by_cases hv : e.vouchersTree.size ≠ epochInputIndex
  · rw [if_pos hv]
    exact fun _ => Fails.taint _
  · rw [if_neg hv]
    split
    · exact quiet_bind (quiet_throwTaint _ _) fun _ => quiet_pure _
    · exact quiet_pure _

/-- An input is run, or it is skipped at once. -/
theorem sat_executeInput (fuel : Nat) (index : UInt64) (epochInputIndex : Nat) (input : InputType)
    (hc : CheckedIn ref k ph s₀ s) :
    Prog.Sat callbackProtocol h (.advanceState request)
      (fun run ph s₀ s => Underway ref k ph s₀ s ∧
        (run.skipReason = .accepted → Advancing ref k ph s₀ s))
      (Excused request ref) (executeInput fuel ref index epochInputIndex input) ph s₀ s := by
  refine Prog.sat_bind.2 (sat_session fun session hs => ?_)
  dsimp only
  split
  · exact Prog.sat_mono (sat_runFittingInput _ _ _ _ _ hc.park)
      (fun _ _ _ _ ha => ⟨Or.inl ha, fun _ => ha⟩) fun _ _ _ _ he => he
  · exact ⟨Or.inr hc, fun hrun => nomatch hrun⟩

/-- The leaf of a skipped input is pushed after the check-in. What was pushed
    before is in the other tree. -/
structure Pushing (ref k : Nat) (index : UInt64) (kind : OutputKind) (ph : Post)
    (s₀ s : HandlerContext) : Prop where
  place : ph = .held ref (.advancing k true)
  same : Callbacks.of s = Callbacks.of s₀
  tree : ∀ session e, s.session = some (ref, session) → session.epochs.lookup index = some e →
    ∃ session₀ e₀, s₀.session = some (ref, session₀) ∧ session₀.epochs.lookup index = some e₀ ∧
      kind.tree e = kind.tree e₀

omit [Keccak] in
theorem CheckedIn.pushing (hc : CheckedIn ref k ph s₀ s) (index : UInt64) (kind : OutputKind) :
    Pushing ref k index kind ph s₀ s := by
  refine ⟨hc.place, hc.same, fun session e hs he => ?_⟩
  rcases hc.epochs with ⟨session₀, session', hs₀, hs', hepochs⟩
  rw [hs] at hs'
  cases hs'
  exact ⟨session₀, e, hs₀, hepochs ▸ he, rfl⟩

/-- A push that throws does so because the epoch is full. -/
theorem sat_pushLeaf {kind : OutputKind} (hkind : kind = voucherKind ∨ kind = noticeKind)
    (hp : Pushing ref k request.activeEpochIndex kind ph s₀ s) :
    Prog.Sat callbackProtocol h (.advanceState request)
      (fun _ ph' s₀' s' => ph' = ph ∧ s₀' = s₀ ∧ ∃ session e tree, s.session = some (ref, session) ∧
        session.epochs.lookup request.activeEpochIndex = some e ∧
        s' = { s with session := some (ref, { session with
          epochs := session.epochs.insert request.activeEpochIndex (kind.setTree tree e) }) })
      (Excused request ref) (pushLeaf ref request.activeEpochIndex kind k zeroHash) ph s₀ s := by
  have hcaller : ∀ tree e, (kind.setTree tree e).caller = e.caller := by
    rcases hkind with rfl | rfl
    · exact fun _ _ => rfl
    · exact fun _ _ => rfl
  simp only [pushLeaf, Prog.bind_eq, Prog.sat_bind]
  refine sat_epoch fun session e hs he => ?_
  rcases hp.tree session e hs he with ⟨session₀, e₀, hs₀, he₀, htree⟩
  -- an exception is excused by what the first world of the segment says
  have hexcused : ∀ what s', Callbacks.of s' = Callbacks.of s →
      (e₀.TakesLeaf → 2 ^ 32 ≤ k) → Excused request ref (.stdException what) ph s₀ s' := by
    intro what s' hs' hfull
    have hworks : Works request ref ph s₀ := by
      rw [hp.place]
      exact works_held Place.noConfusion s₀
    refine ⟨hp.place ▸ .held rfl, Or.inl (hs'.trans hp.same), about_stdException ref _,
      Or.inr hworks, fun k' hk => Or.inr ?_⟩
    have heq : k' = k := by
      have hplace := hp.place.symm.trans hk
      cases hplace
      rfl
    subst heq
    by_cases htakes : e₀.TakesLeaf
    · exact .number (hfull htakes)
    · exact .full hs₀ he₀ htakes
  cases hpush : (kind.tree e).pushBack hasherType zeroHash with
  | error what =>
      refine hexcused what s rfl fun htakes => ?_
      rcases htakes kind hkind with ⟨tree, htree', -⟩
      rw [← htree, hpush] at htree'
      cases htree'
  | ok tree =>
      refine sat_writeEpoch fun session' e' hs' he' => ?_
      rw [hs] at hs'
      cases hs'
      rw [he] at he'
      cases he'
      have hwrite := callbacks_write (f := fun session => { session with
        epochs := session.epochs.insert request.activeEpochIndex (kind.setTree tree e) }) hs rfl rfl
        (callers_keep he (hcaller tree e))
      cases hproof : tree.getProof (UInt64.ofNat k <<< UInt64.ofNat log2KeccakSize)
          log2KeccakSize with
      | error what =>
          refine hexcused what _ hwrite fun htakes => ?_
          rcases htakes kind hkind with ⟨tree', htree', hproofs⟩
          rw [← htree, hpush] at htree'
          cases htree'
          by_contra hk
          rcases hproofs k (Nat.not_le.1 hk) with ⟨proof, hok⟩
          rw [hproof] at hok
          cases hok
      | ok proof => exact ⟨rfl, rfl, session, e, tree, hs, he, rfl⟩

/-- A skipped input. The rollback makes the server check in, and then both trees
    take a leaf before the next call. -/
theorem sat_skipped (number : UInt64) (run : InputRun) (hu : Underway ref k ph s₀ s) :
    Prog.Sat callbackProtocol h (.advanceState request) (fun _ => Advancing ref k)
      (Excused request ref) (recordSkipped h ref request.activeEpochIndex number k run) ph s₀ s := by
  have hw : Calling h (.advanceState request) ref (Advancing ref k) (Excused request ref) :=
    calling_advancing
  refine Prog.sat_bind.2 (Prog.sat_mono (sat_checkedIn (sat_parkedCall .rollback _ hu.park))
    (fun _ ph s₀ s hc => ?_) fun _ _ _ _ he => he)
  have hvoucher : Prog.Sat callbackProtocol h (.advanceState request) _ (Excused request ref)
      (pushLeaf ref request.activeEpochIndex voucherKind k zeroHash) ph s₀ s :=
    sat_pushLeaf (Or.inl rfl) (hc.pushing request.activeEpochIndex voucherKind)
  refine Prog.sat_bind.2 (Prog.sat_mono hvoucher ?_ fun _ _ _ _ he => he)
  rintro - ph₁ s₁ s' ⟨rfl, rfl, session, e, tree, hs, he, rfl⟩
  have hwrite := callbacks_write (f := fun session => { session with
    epochs := session.epochs.insert request.activeEpochIndex (voucherKind.setTree tree e) }) hs
    rfl rfl (callers_keep (f := voucherKind.setTree tree) he rfl)
  have hp : Pushing ref k request.activeEpochIndex noticeKind ph₁ s₁ { s with
      session := some (ref, { session with
        epochs := session.epochs.insert request.activeEpochIndex (voucherKind.setTree tree e) }) } := by
    refine ⟨hc.place, hwrite.trans hc.same, fun session' e' hs' he' => ?_⟩
    cases hs'
    rw [AList.lookup_insert] at he'
    cases he'
    exact (hc.pushing request.activeEpochIndex noticeKind).tree session e hs he
  have hnotice : Prog.Sat callbackProtocol h (.advanceState request) _ (Excused request ref)
      (pushLeaf ref request.activeEpochIndex noticeKind k zeroHash) _ _ _ :=
    sat_pushLeaf (Or.inr rfl) hp
  refine Prog.sat_bind.2 (Prog.sat_mono hnotice ?_ fun _ _ _ _ he => he)
  rintro - ph₂ s₂ s' ⟨rfl, rfl, session', e', tree', hs', he', rfl⟩
  have hwrite' := callbacks_write (f := fun session => { session with
    epochs := session.epochs.insert request.activeEpochIndex (noticeKind.setTree tree' e') }) hs'
    rfl rfl (callers_keep (f := noticeKind.setTree tree') he' rfl)
  -- the next call
  have hpark : PostStep h (.advanceState request) ph₂ s₂ (some (.held ref (.advancing k false)))
      { s with session := some (ref, { session' with
        epochs := session'.epochs.insert request.activeEpochIndex (noticeKind.setTree tree' e') }) } :=
    .advance hc.entered (Or.inl (hwrite'.trans hp.same)) (Or.inl ⟨true, hc.place⟩)
  have hhash : Prog.Sat callbackProtocol h (.advanceState request) (fun _ => Advancing ref k)
      (Excused request ref) (getRootHash ref) ph₂ s₂ { s with
        session := some (ref, { session' with
          epochs := session'.epochs.insert request.activeEpochIndex
            (noticeKind.setTree tree' e') }) } := by
    refine Prog.sat_bind.2 (Prog.sat_mono (sat_parkedCall .getRootHash _ hpark) ?_
      fun _ _ _ _ he => he)
    rintro hash - - s₃ ⟨rfl, rfl⟩
    exact tracks_quiet hw (quiet_ofExcept _) _ _ _ (Advancing.refl ref k s₃)
  refine Prog.sat_bind.2 (Prog.sat_mono hhash (fun hash ph s₀ s ha => ?_) fun _ _ _ _ he => he)
  refine Prog.steady_bind (tracks_getEpoch _) (fun e => ?_) ph s₀ s ha
  split
  · exact tracks_throw hw (about_taint ref _)
  · exact tracks_modifyEpoch _ fun _ => rfl

theorem tracks_pushLeaf {J : Post → HandlerContext → HandlerContext → Prop} [Tracks J] {rpc : Rpc}
    {E : Exn → Post → HandlerContext → HandlerContext → Prop} (hw : Calling h rpc ref J E)
    (index : UInt64) {kind : OutputKind} (hkind : ∀ tree e, (kind.setTree tree e).caller = e.caller)
    (epochInputIndex : Nat) (hash : HashType) :
    Prog.Steady callbackProtocol h rpc J E (pushLeaf ref index kind epochInputIndex hash) :=
  Prog.steady_bind (tracks_getEpoch index) fun _ =>
    Prog.steady_bind (tracks_quiet hw (quiet_ofExcept _)) fun _ =>
    Prog.steady_bind (tracks_modifyEpoch index fun e => hkind _ e) fun _ =>
      tracks_quiet hw (quiet_ofExcept _)

theorem tracks_collectOutputs {J : Post → HandlerContext → HandlerContext → Prop} [Tracks J]
    {rpc : Rpc} {E : Exn → Post → HandlerContext → HandlerContext → Prop}
    (hw : Calling h rpc ref J E) (index : UInt64) {kind : OutputKind}
    (hkind : ∀ tree e, (kind.setTree tree e).caller = e.caller) (epochInputIndex count : Nat) :
    Prog.Steady callbackProtocol h rpc J E
      (collectOutputs ref index kind epochInputIndex count) := by
  refine Prog.steady_bind tracks_getSession fun session =>
    Prog.steady_bind (tracks_quiet hw (quiet_getProof _ _)) fun proof =>
    Prog.steady_bind (tracks_pushLeaf hw _ hkind _ _) fun inEpoch =>
    Prog.steady_bind (tracks_quiet hw (quiet_readMemory _ _)) fun hashes => tracks_quiet hw ?_
  dsimp only
  split
  · exact fun _ => Fails.taint _
  · exact quiet_bind (quiet_getKeccaks _ _ _ _) fun _ => quiet_pure _

theorem tracks_recordAccepted (index number : UInt64) (epochInputIndex : Nat) (run : InputRun) :
    Prog.Steady callbackProtocol h (.advanceState request) (Advancing ref k) (Excused request ref)
      (recordAccepted ref index number epochInputIndex run) := by
  have hw : Calling h (.advanceState request) ref (Advancing ref k) (Excused request ref) :=
    calling_advancing
  exact Prog.steady_bind (tracks_collectOutputs hw _ (fun _ _ => rfl) _ _) fun _ =>
    Prog.steady_bind (tracks_collectOutputs hw _ (fun _ _ => rfl) _ _) fun _ =>
    Prog.steady_bind (tracks_quiet hw quiet_getRootHash) fun _ =>
    Prog.steady_bind (tracks_modifyEpoch index fun _ => rfl) fun _ =>
      tracks_modify (fun _ => rfl) (fun _ => rfl) fun _ => rfl

/-- One input, from wherever AdvanceState was. -/
theorem sat_oneInput (fuel : Nat) (input : InputType) (ha : Engaged request ref ph s₀ s) :
    Prog.Sat callbackProtocol h (.advanceState request) (fun _ => Engaged request ref)
      (Excused request ref)
      (processInput fuel h ref request.activeEpochIndex input) ph s₀ s := by
  refine Prog.sat_bind.2 (sat_session fun session hs => ?_)
  refine Prog.sat_bind.2 (sat_epoch fun session' e hs' he => ?_)
  have hpark : PostStep h (.advanceState request) ph s₀
      (some (.held ref (.advancing e.processedInputs.length false))) s :=
    .advance ha.entered ha.kept (Or.inr ⟨session', e, hs', he, rfl⟩)
  refine Prog.sat_bind.2 (Prog.sat_mono (sat_checkedIn (sat_parkedCall .snapshot _ hpark))
    (fun _ ph s₀ s hc => ?_) fun _ _ _ _ he => he)
  refine Prog.sat_bind.2 (Prog.sat_mono (sat_executeInput _ _ _ _ hc) ?_ fun _ _ _ _ he => he)
  rintro run ph s₀ s ⟨hu, haccepted⟩
  have hrecord : Prog.Sat callbackProtocol h (.advanceState request)
      (fun _ => Advancing ref e.processedInputs.length) (Excused request ref)
      (recordInput h ref request.activeEpochIndex session.processedInputCount
        e.processedInputs.length run) ph s₀ s := by
    unfold recordInput
    split
    · next hrun => exact tracks_recordAccepted _ _ _ _ _ _ _ (haccepted hrun)
    · exact sat_skipped _ _ hu
  refine Prog.sat_bind.2 (Prog.sat_mono hrecord (fun _ ph s₀ s ha => ?_) fun _ _ _ _ he => he)
  have hpop : Prog.Steady callbackProtocol h (.advanceState request) (Engaged request ref)
      (Excused request ref) (popInput ref request.activeEpochIndex) :=
    Prog.steady_bind (tracks_modify (fun _ => rfl) (fun _ => rfl) fun _ => rfl) fun _ =>
      tracks_modifyEpoch _ fun _ => rfl
  exact hpop ph s₀ s ha.engaged

/-! ### All inputs -/

/-- AdvanceState takes the place of the coroutine it wakes up, wherever its own
    segment began. -/
theorem step_handOver {ph' : Post} {session : SessionType} {e : EpochType} {q : QueryType}
    {index : UInt64} (hin : Admitted ref ph (Callbacks.of s₀)) (hworks : Works request ref ph s₀)
    (hkept : Relocks ref (Callbacks.of s₀) (Callbacks.of s)) (hs : s.session = some (ref, session))
    (hindex : index = request.activeEpochIndex ∨ index = session.activeEpochIndex)
    (he : session.epochs.lookup index = some e) (hq : e.pendingQuery = some q)
    (hph' : ph' = .held ref .handedOff ∨ ph' = .leaving) :
    PostStep h (.advanceState request) ph s₀ (some ph') { s with
      completionQueue := s.completionQueue ++ [q.coroutine]
      session := some (ref, { session with
        epochs := session.epochs.insert index (setCoroutine h e) }) } := by
  have hcaller : session.callers index = some q.coroutine := by
    rw [callers_at he]
    unfold EpochType.caller
    rw [hq]
    rfl
  have hnew : Callbacks.of { s with
      completionQueue := s.completionQueue ++ [q.coroutine]
      session := some (ref, { session with
        epochs := session.epochs.insert index (setCoroutine h e) }) } =
      { Callbacks.of s with
        table := some ⟨ref, session.sessionLock, session.activeEpochIndex,
          Function.update session.callers index (some (some h))⟩
        queue := s.completionQueue ++ [q.coroutine] } := by
    have hset : (setCoroutine h e).caller = some (some h) := by
      unfold setCoroutine EpochType.caller
      rw [hq]
      rfl
    unfold Callbacks.of
    simp only [Option.map_some, callers_insert, hset]
  rcases relocks_table hkept hs with ⟨d, hd, rfl, hactive, hqueries, hsame⟩
  have hgeneration : (Callbacks.of s).generation = (Callbacks.of s₀).generation := by rw [hsame]
  have hqueue : (Callbacks.of s).queue = (Callbacks.of s₀).queue := by rw [hsame]
  refine .handOver (b := session.sessionLock) hin hworks hd rfl (hactive ▸ hindex)
    (hqueries ▸ hcaller) hph' ?_
  rw [hnew, ← hqueries, ← hactive, ← hqueue]
  exact congrArg (fun n => Callbacks.mk _ n _) hgeneration

/-- The loop over the inputs, and a query between any two of them. -/
theorem tracks_pendingInputsLoop (fuel n : Nat) :
    Prog.Steady callbackProtocol h (.advanceState request) (Engaged request ref) (Excused request ref)
      (pendingInputsLoop fuel h ref request.activeEpochIndex n) := by
  induction n with
  | zero => exact fun _ _ _ _ => trivial
  | succ n ih =>
      refine Prog.steady_bind (tracks_getEpoch _) fun e => ?_
      split
      · exact Prog.steady_pure _
      · intro ph s₀ s ha
        refine Prog.sat_bind.2 (Prog.sat_mono (sat_oneInput fuel _ ha) (fun _ ph s₀ s ha => ?_)
          fun _ _ _ _ he => he)
        refine Prog.sat_bind.2 (sat_epoch fun session e hs he => ?_)
        split
        · next q hq =>
            refine Prog.sat_bind.2 (Prog.sat_bind.2 (sat_writeEpoch fun session' e' hs' he' => ?_))
            have hs'' : s.session = some (ref, session') := hs'
            rw [hs] at hs''
            cases hs''
            rw [he] at he'
            cases he'
            exact ⟨.held ref .handedOff, .handedOff,
              step_handOver ha.entered ha.works ha.kept hs (Or.inl rfl) he hq (Or.inl rfl),
              fun _ s₁ _ => ih _ _ _ ⟨amid_refl rfl (fun _ => Place.noConfusion) s₁,
                works_held Place.noConfusion s₁⟩⟩
        · exact ih ph s₀ s ha

/-- The scope of the processing lock. -/
theorem tracks_processPendingInputs (fuel : Nat) :
    Prog.Steady callbackProtocol h (.advanceState request) (Engaged request ref) (Excused request ref)
      (processPendingInputs fuel h ref request.activeEpochIndex) := by
  have hset : ∀ {E : Exn → Post → HandlerContext → HandlerContext → Prop} lock,
      Prog.Steady callbackProtocol h (.advanceState request) (Engaged request ref) E
        (modifySession ref (processingLockField.set lock)) :=
    fun _ => tracks_modify (fun _ => rfl) (fun _ => rfl) fun _ => rfl
  refine Prog.steady_bind tracks_getSession fun session => ?_
  dsimp only
  split
  · exact fun _ _ _ ha => ha.excused (about_taint ref _)
  · refine Prog.steady_bind (Prog.steady_bind tracks_getSession fun session => ?_) fun _ ph s₀ s ha => ?_
    · dsimp only
      split
      · exact fun _ _ _ ha => ha.excused (about_stdException ref _)
      · exact hset true
    · rw [Prog.sat_andFinally]
      refine Prog.sat_mono (tracks_pendingInputsLoop fuel fuel ph s₀ s ha)
        (fun _ ph s₀ s ha => hset false ph s₀ s ha) fun x ph s₀ s hx => ?_
      refine sat_modify fun session hs => ⟨hx.entered, ?_, hx.about, hx.works, hx.spoiled⟩
      rw [callbacks_write hs rfl rfl rfl]
      exact hx.kept

end Advance

end ServerManager
