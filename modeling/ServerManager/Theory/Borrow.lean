import ServerManager.Theory.Ledger

/-!
# Handlers That Borrow the Session

AdvanceState, InspectState, FinishEpoch, DeleteEpoch and the two reports lock
the session, keep a reference to it until they are done, and unlock it when they
leave the try block. In between they write what they like, so that most of their
code says nothing about the ledger: it keeps `Within`, whatever it does. The
handlers themselves are in the next module.

## Main definitions

* `About`, `Tame`: Programs that throw no exception about another session.
* `Refuses`: Programs that throw only to have their handler answer.
* `Within`: What holds along a segment in the scope of the lock.
* `Caller`, `Worker`: A handler that makes calls, and maybe waits for check-ins.
* `Carries`: What keeps the reference and looks only at the ledger.
* `Stays`: Programs that stay in the scope of the lock.
* `Left`: What holds when the scope of the lock was left.

## Theorems

* `stays_tame`, `stays_modify`, `stays_trigger`: What stays within.
* `stays_processInput`, `stays_processPendingQuery`: Inputs and queries.
* `within_processPendingInputs`: The scope of the processing lock.
* `sat_withLock`: The scope of the session lock.
-/

namespace ServerManager

open Coroutine

/-! ### Tame programs -/

/-- An exception that taints a session is about the session of `ref`. -/
def About (ref : Nat) (x : Exn) : Prop := ∀ ref' status, x = .taintSession ref' status → ref' = ref

/-- A program that writes nothing, waits only for calls that trigger no
    check-in, throws no exception about another session, and as long as the
    session is there does not lose it. -/
def Tame {α : Type} (ref : Nat) (c : Handler α) : Prop :=
  ∀ s, Prog.Only (S := handlerSignature) (Calls ref) (About ref) (Loses ref) c s

section Tame

variable {α β : Type} {ref : Nat}

theorem about_finishError (ref : Nat) (status : Status) :
    About ref (.finishErrorYieldNone status) := fun _ _ h => Exn.noConfusion h

theorem about_stdException (ref : Nat) (what : String) : About ref (.stdException what) :=
  fun _ _ h => Exn.noConfusion h

theorem about_taint (ref : Nat) (status : Status) : About ref (.taintSession ref status) := by
  intro _ _ h
  cases h
  rfl

theorem tame_of_quiet {c : Handler α} (hc : Quiet ref c) : Tame ref c := by
  refine fun s => Prog.only_mono (hc s) fun x hx => ?_
  cases hx with
  | taint status => exact about_taint ref status
  | exception what => exact about_stdException ref what

theorem tame_bind {c : Handler α} {f : α → Handler β} (hc : Tame ref c)
    (hf : ∀ a, Tame ref (f a)) : Tame ref (c >>= f) :=
  fun s => Prog.only_bind (hc s) hf

theorem tame_pure (a : α) : Tame ref (Prog.pure a) := fun _ => trivial

theorem tame_throwFinishError (code : StatusCode) (message : String) :
    Tame ref (throwFinishError code message : Handler α) := fun _ => about_finishError ref _

theorem tame_callOrFail {c : MachineCall} (hc : c.triggers = false) (deadline : String) :
    Tame ref (callOrFail ref c deadline) := by
  refine only_call hc (fun status => checkStatusOrFail status deadline) fun status s => ?_
  unfold checkStatusOrFail
  split
  · trivial
  · exact about_finishError ref _

/-! #### Refusals -/

/-- A program that throws only to have its handler answer with an error. -/
def Refuses {α : Type} (ref : Nat) (c : Handler α) : Prop :=
  ∀ s, Prog.Only (S := handlerSignature) (Calls ref)
    (fun x => ∃ status, x = .finishErrorYieldNone status) (Loses ref) c s

theorem tame_of_refuses {c : Handler α} (hc : Refuses ref c) : Tame ref c := by
  refine fun s => Prog.only_mono (hc s) fun x hx => ?_
  rcases hx with ⟨status, rfl⟩
  exact about_finishError ref status

theorem refuses_bind {c : Handler α} {f : α → Handler β} (hc : Refuses ref c)
    (hf : ∀ a, Refuses ref (f a)) : Refuses ref (c >>= f) :=
  fun s => Prog.only_bind (hc s) hf

theorem refuses_pure (a : α) : Refuses ref (Prog.pure a) := fun _ => trivial

theorem refuses_throwFinishError (code : StatusCode) (message : String) :
    Refuses ref (throwFinishError code message : Handler α) := fun _ => ⟨_, rfl⟩

theorem refuses_throw_bind (code : StatusCode) (message : String) {f : α → Handler β} :
    Refuses ref (throwFinishError code message >>= f) := fun _ => ⟨_, rfl⟩

theorem refuses_session {f : SessionType → Handler α} (hf : ∀ session, Refuses ref (f session)) :
    Refuses ref (getSession ref >>= f) :=
  fun s => only_getSession fun session _ => hf session s

theorem refuses_checkTainted (what : String) : Refuses ref (checkTainted ref what) := by
  refine refuses_session fun session => ?_
  split
  · exact refuses_throwFinishError _ _
  · exact refuses_pure _

theorem tame_checkTainted (what : String) : Tame ref (checkTainted ref what) :=
  tame_of_refuses (refuses_checkTainted what)

theorem refuses_checkInputMetadata (proto : Option InputMetadata) (currentInputIndex : UInt64) :
    Refuses ref (checkInputMetadata proto currentInputIndex) := by
  unfold checkInputMetadata
  split
  · exact refuses_throwFinishError _ _
  split
  · exact refuses_throwFinishError _ _
  split
  · split
    · exact refuses_throwFinishError _ _
    split
    · exact refuses_throwFinishError _ _
    · exact refuses_pure _
  · exact refuses_throwFinishError _ _

theorem refuses_checkAdvanceState (request : AdvanceStateRequest) :
    Refuses ref (checkAdvanceState ref request) := by
  refine refuses_bind (refuses_checkTainted _) fun _ => refuses_session fun session => ?_
  dsimp only
  by_cases hindex : session.activeEpochIndex ≠ request.activeEpochIndex
  · simp only [if_pos hindex]
    split
    · exact refuses_throw_bind _ _
    · exact refuses_throw_bind _ _
  · simp only [if_neg hindex]
    split
    · exact refuses_throwFinishError _ _
    · split
      · exact refuses_throw_bind _ _
      · split
        · exact refuses_throw_bind _ _
        · exact refuses_bind (refuses_checkInputMetadata _ _) fun _ => refuses_pure _

end Tame

/-! ### In the scope of the lock -/

/-- What a segment in the scope of the session lock has done once it has seen
    the session: it may have changed the check-in entry it waited for and the
    locks. With `inside`, it is in the scope of the processing lock too. -/
inductive Seen (ref : Nat) (inside : Bool) : Hold → HandlerContext → HandlerContext → Prop
  | fresh {s₀ s : HandlerContext} {p : Bool} (hout : inside = false)
      (hs : (Ledger.of s₀).session = some ⟨ref, false, p⟩)
      (hL : Ledger.of s = { Ledger.of s₀ with session := some ⟨ref, true, p⟩ }) :
      Seen ref inside .fresh s₀ s
  | held {s₀ s : HandlerContext} {inside₀ : Bool} {spot : Spot} {lock₀ p₀ : Bool} (lock p : Bool)
      (hset : Marked spot (Ledger.of s₀)) (hs : (Ledger.of s₀).session = some ⟨ref, lock₀, p₀⟩)
      (hL : Ledger.of s = { (Ledger.of s₀).settle spot with session := some ⟨ref, lock, p⟩ })
      (hp : inside = false → p = (!inside₀ && p₀)) (hin : inside = true → inside₀ = true ∨ p₀ = false) :
      Seen ref inside (.held ref inside₀ spot) s₀ s

/-- What holds along such a segment, which may not have seen yet whether its
    reference was lost. -/
structure Within (ref : Nat) (inside : Bool) (ph : Hold) (s₀ s : HandlerContext) : Prop where
  valid : Borrowed ph s₀ → Valid ref s
  seen : Valid ref s → Seen ref inside ph s₀ s

/-- What holds when such a segment throws. -/
def Thrown (ref : Nat) (inside : Bool) (x : Exn) (ph : Hold) (s₀ s : HandlerContext) : Prop :=
  Within ref inside ph s₀ s ∧ About ref x

/-- The entry of a session in the ledger. -/
theorem ledger_entry {ref : Nat} {s : HandlerContext} {session : SessionType}
    (hs : s.session = some (ref, session)) :
    (Ledger.of s).session = some ⟨ref, session.sessionLock, session.processingLock⟩ := by
  unfold Ledger.of
  rw [hs]
  rfl

theorem valid_iff {ref : Nat} {s : HandlerContext} :
    Valid ref s ↔ ∃ lock p, (Ledger.of s).session = some ⟨ref, lock, p⟩ := by
  constructor
  · rintro ⟨session, hs⟩
    exact ⟨session.sessionLock, session.processingLock, ledger_entry hs⟩
  · rintro ⟨lock, p, hs⟩
    rcases Option.map_eq_some_iff.1 hs with ⟨⟨ref', session⟩, hsession, hentry⟩
    cases hentry
    exact ⟨session, hsession⟩

theorem valid_congr {ref : Nat} {s s' : HandlerContext} (hL : Ledger.of s' = Ledger.of s) :
    Valid ref s' ↔ Valid ref s := by
  rw [valid_iff, valid_iff, hL]

theorem borrowed_held {ref : Nat} {inside : Bool} {spot : Spot} {s : HandlerContext} :
    Borrowed (.held ref inside spot) s ↔ Valid ref s := by
  refine ⟨fun hb => hb ref rfl, fun hv ref' href' => ?_⟩
  cases href'
  exact hv

/-- A handler without a reference has none to lose. -/
theorem borrowed_of_none {ph : Hold} (hph : ph.ref = none) (s : HandlerContext) :
    Borrowed ph s := by
  intro ref href
  rw [hph] at href
  cases href

theorem borrowed_fresh (s : HandlerContext) : Borrowed .fresh s := borrowed_of_none rfl s

section Within

variable {h : HandlerId} {rpc : Rpc} {ref : Nat} {inside : Bool} {ph : Hold}
  {s₀ s s' : HandlerContext}

theorem Seen.congr (hseen : Seen ref inside ph s₀ s) (hL : Ledger.of s' = Ledger.of s) :
    Seen ref inside ph s₀ s' := by
  cases hseen with
  | fresh hout hs hL₀ => exact .fresh hout hs (hL.trans hL₀)
  | held lock p hset hs hL₀ hp hin => exact .held lock p hset hs (hL.trans hL₀) hp hin

/-- Only the ledger counts. -/
theorem Within.congr (hin : Within ref inside ph s₀ s) (hL : Ledger.of s' = Ledger.of s) :
    Within ref inside ph s₀ s' :=
  ⟨fun hb => (valid_congr hL).2 (hin.valid hb), fun hv => (hin.seen ((valid_congr hL).1 hv)).congr hL⟩

theorem Seen.borrowed (hseen : Seen ref inside ph s₀ s) : Borrowed ph s₀ := by
  cases hseen with
  | fresh => exact borrowed_fresh s₀
  | held lock p hset hs => exact borrowed_held.2 (valid_iff.2 ⟨_, _, hs⟩)

theorem Seen.valid (hseen : Seen ref inside ph s₀ s) : Valid ref s := by
  cases hseen with
  | fresh hout hs hL => exact valid_iff.2 ⟨true, _, by rw [hL]⟩
  | held lock p hset hs hL => exact valid_iff.2 ⟨_, _, by rw [hL]⟩

theorem Seen.within (hseen : Seen ref inside ph s₀ s) : Within ref inside ph s₀ s :=
  ⟨fun _ => hseen.valid, fun _ => hseen⟩

/-- A segment that begins outside a check-in wait has changed nothing yet. -/
theorem within_refl {spot : Spot} (hspot : spot ≠ .waiting) (s : HandlerContext) :
    Within ref inside (.held ref inside spot) s s := by
  refine ⟨fun hb => borrowed_held.1 hb, fun hv => ?_⟩
  rcases valid_iff.1 hv with ⟨lock, p, hs⟩
  refine .held lock p (fun hwait => absurd hwait hspot) hs ?_ (fun hout => ?_) fun hin => Or.inl hin
  · rw [← hs]
    cases spot with
    | plain => rfl
    | trigger => rfl
    | waiting => exact absurd rfl hspot
  · rw [hout]
    rfl

/-- Parking in the scope of the lock, but not for a check-in. -/
theorem Seen.park (hseen : Seen ref inside ph s₀ s) (hrpc : Borrows rpc) {spot : Spot}
    (hspot : spot ≠ .waiting) :
    ledgerProtocol.Step h rpc ph s₀ (some (.held ref inside spot)) s := by
  refine ⟨hseen.borrowed, ?_⟩
  cases hseen with
  | fresh hout hs hL =>
      rw [hL, hout]
      exact .enter hrpc hs hspot
  | held lock p hset hs hL hp hin =>
      rw [hL]
      exact .work hset hs hp hspot

/-- What the segment finds of the check-in entry. -/
theorem Seen.waiting (hseen : Seen ref inside ph s₀ s) :
    s.waitingCheckin = ((Ledger.of s₀).settle ph.spot).waiting := by
  cases hseen with
  | fresh hout hs hL => exact congrArg Ledger.waiting hL
  | held lock p hset hs hL => exact congrArg Ledger.waiting hL

/-- A write to the session that leaves the locks alone. -/
theorem ledger_write {session : SessionType} {f : SessionType → SessionType}
    (hs : s.session = some (ref, session)) (hlock : (f session).sessionLock = session.sessionLock)
    (hproc : (f session).processingLock = session.processingLock) :
    Ledger.of { s with session := some (ref, f session) } = Ledger.of s := by
  unfold Ledger.of
  rw [hs]
  simp only [Option.map_some, hlock, hproc]

/-! ### Primitives -/

variable {E : Exn → Hold → HandlerContext → HandlerContext → Prop}

theorem sat_context {P : Protocol handlerSignature Rpc}
    {Q : HandlerContext → P.Phase → HandlerContext → HandlerContext → Prop}
    {E : Exn → P.Phase → HandlerContext → HandlerContext → Prop} {ph : P.Phase}
    (hQ : Q s ph s₀ s) : Prog.Sat P h rpc Q E getContext ph s₀ s := hQ

/-- A reference that was lost takes the process down. -/
theorem sat_borrow {Q : SessionType → Hold → HandlerContext → HandlerContext → Prop}
    (hv : Borrowed ph s₀ → Valid ref s)
    (hQ : ∀ session, s.session = some (ref, session) → Q session ph s₀ s) :
    Prog.Sat ledgerProtocol h rpc Q E (getSession ref) ph s₀ s := by
  have hlost : ¬ Valid ref s → ∀ {x}, Borrowed ph s₀ → LedgerCrash rpc ph (Ledger.of s₀) x :=
    fun hnot _ hb => absurd (hv hb) hnot
  unfold getSession Prog.Sat
  beta_reduce
  split
  · next generation session hs =>
      split
      · next heq =>
          subst heq
          exact hQ session hs
      · next hne =>
          refine hlost fun hvalid => hne ?_
          rcases hvalid with ⟨session', hs'⟩
          rw [hs] at hs'
          cases hs'
          rfl
  · next hs =>
      refine hlost fun hvalid => ?_
      rcases hvalid with ⟨session', hs'⟩
      rw [hs] at hs'
      cases hs'

theorem sat_write {Q : Unit → Hold → HandlerContext → HandlerContext → Prop}
    {f : SessionType → SessionType} (hv : Borrowed ph s₀ → Valid ref s)
    (hQ : ∀ session, s.session = some (ref, session) →
      Q () ph s₀ { s with session := some (ref, f session) }) :
    Prog.Sat ledgerProtocol h rpc Q E (modifySession ref f) ph s₀ s := by
  have hlost : ¬ Valid ref s → ∀ {x}, Borrowed ph s₀ → LedgerCrash rpc ph (Ledger.of s₀) x :=
    fun hnot _ hb => absurd (hv hb) hnot
  unfold modifySession Prog.Sat
  beta_reduce
  split
  · next generation session hs =>
      split
      · next heq =>
          subst heq
          exact hQ session hs
      · next hne =>
          refine hlost fun hvalid => hne ?_
          rcases hvalid with ⟨session', hs'⟩
          rw [hs] at hs'
          cases hs'
          rfl
  · next hs =>
      refine hlost fun hvalid => ?_
      rcases hvalid with ⟨session', hs'⟩
      rw [hs] at hs'
      cases hs'

end Within

/-! ### Workers -/

/-- A handler that makes calls. -/
structure Caller (rpc : Rpc) (ref : Nat) (inside : Bool) : Prop where
  borrows : Borrows rpc
  calling : ∀ c : MachineCall, c.triggers = false →
    HoldAt rpc (.held ref inside .plain) (.call c)

/-- A handler that makes calls and waits for check-ins. -/
structure Worker (rpc : Rpc) (ref : Nat) (inside : Bool) : Prop extends Caller rpc ref inside where
  triggers : Triggers rpc
  triggering : ∀ c : MachineCall, c.triggers = true →
    HoldAt rpc (.held ref inside .trigger) (.call c)
  checkin : HoldAt rpc (.held ref inside .waiting) .checkin

theorem spot_of_quiet {c : MachineCall} (hc : c.triggers = false) : c.spot = .plain := by
  unfold MachineCall.spot
  rw [hc]
  rfl

theorem spot_of_triggers {c : MachineCall} (hc : c.triggers = true) : c.spot = .trigger := by
  unfold MachineCall.spot
  rw [hc]
  rfl

theorem caller_borrow {rpc : Rpc} (hrpc : Borrows rpc) (ref : Nat) : Caller rpc ref false :=
  ⟨hrpc, fun _ hc => .calling hrpc hc⟩

theorem worker_advance (request : AdvanceStateRequest) (ref : Nat) :
    Worker (.advanceState request) ref true where
  borrows := rfl
  calling _ hc := spot_of_quiet hc ▸ .advanceCall
  triggers := rfl
  triggering _ hc := spot_of_triggers hc ▸ .advanceCall
  checkin := .advanceCheckin

theorem worker_inspect (payload : Bytes) (ref : Nat) :
    Worker (.inspectState payload) ref false where
  borrows := rfl
  calling _ hc := .calling rfl hc
  triggers := rfl
  triggering _ hc := spot_of_triggers hc ▸ .inspectCall
  checkin := .inspectCheckin

/-- Along such a segment the session is there, and only the ledger counts. -/
class Carries (ref : Nat) (J : Hold → HandlerContext → HandlerContext → Prop) : Prop where
  valid : ∀ {ph s₀ s}, J ph s₀ s → Borrowed ph s₀ → Valid ref s
  congr : ∀ {ph s₀ s s'}, J ph s₀ s → Ledger.of s' = Ledger.of s → J ph s₀ s'

instance (ref : Nat) (inside : Bool) : Carries ref (Within ref inside) where
  valid hin := hin.valid
  congr hin := hin.congr

section Worker

variable {α β : Type} {h : HandlerId} {rpc : Rpc} {ref : Nat} {inside : Bool}

/-- A program that stays in the scope of the lock. -/
abbrev Stays (h : HandlerId) (rpc : Rpc) (ref : Nat) (inside : Bool) (c : Handler α) : Prop :=
  Prog.Steady ledgerProtocol h rpc (Within ref inside) (Thrown ref inside) c

theorem stays_bind {c : Handler α} {f : α → Handler β} (hc : Stays h rpc ref inside c)
    (hf : ∀ a, Stays h rpc ref inside (f a)) : Stays h rpc ref inside (c >>= f) :=
  Prog.steady_bind hc hf

theorem stays_pure (a : α) : Stays h rpc ref inside (Prog.pure a) := Prog.steady_pure a

theorem stays_tame (hw : Caller rpc ref inside) {c : Handler α} (hc : Tame ref c) :
    Stays h rpc ref inside c := by
  refine Prog.steady_of_only hc ?_ ?_ ?_
  · rintro op ph s₀ s ⟨call, rfl, hcall, hv⟩ hin
    exact ⟨.held ref inside .plain, hw.calling call hcall,
      (hin.seen hv).park hw.borrows Spot.noConfusion, fun s₁ _ => within_refl Spot.noConfusion s₁⟩
  · exact fun x ph s₀ s hx hin => ⟨hin, hx⟩
  · rintro x ph s₀ s hx hin hb
    rcases hx with rfl | ⟨rfl, hlost⟩
    · exact .other rfl
    · exact absurd (hin.valid hb) hlost

section Carries

variable {J : Hold → HandlerContext → HandlerContext → Prop} [Carries ref J]
  {E : Exn → Hold → HandlerContext → HandlerContext → Prop}

/-- A write to the session that leaves the locks alone. -/
theorem stays_modify {f : SessionType → SessionType}
    (hlock : ∀ session, (f session).sessionLock = session.sessionLock)
    (hproc : ∀ session, (f session).processingLock = session.processingLock) :
    Prog.Steady ledgerProtocol h rpc J E (modifySession ref f) := by
  intro ph s₀ s hJ
  exact sat_write (Carries.valid hJ) fun session hs =>
    Carries.congr ref hJ (ledger_write hs (hlock session) (hproc session))

theorem stays_getSession : Prog.Steady ledgerProtocol h rpc J E (getSession ref) :=
  fun _ _ _ hJ => sat_borrow (Carries.valid hJ) fun _ _ => hJ

theorem stays_getContext : Prog.Steady ledgerProtocol h rpc J E getContext := fun _ _ _ hJ => hJ

/-- An epoch that is gone takes the process down in another way. -/
theorem stays_useAfterFree :
    Prog.Steady ledgerProtocol h rpc J E (Prog.halt .useAfterFree : Handler α) :=
  fun _ _ _ _ _ => .other rfl

theorem stays_getEpoch (index : UInt64) :
    Prog.Steady ledgerProtocol h rpc J E (getEpoch ref index) := by
  refine Prog.steady_bind stays_getSession fun session => ?_
  split
  · exact Prog.steady_pure _
  · exact stays_useAfterFree

theorem stays_modifyEpoch (index : UInt64) (f : EpochType → EpochType) :
    Prog.Steady ledgerProtocol h rpc J E (modifyEpoch ref index f) :=
  Prog.steady_bind (stays_getEpoch index) fun _ => stays_modify (fun _ => rfl) fun _ => rfl

theorem stays_epochsAt [Keccak] (index : UInt64) :
    Prog.Steady ledgerProtocol h rpc J E (epochsAt ref index) := by
  refine Prog.steady_bind stays_getSession fun session => ?_
  split
  · exact Prog.steady_pure _
  · exact Prog.steady_bind (stays_modify (fun _ => rfl) fun _ => rfl) fun _ => Prog.steady_pure _

theorem stays_getQuery (index : UInt64) :
    Prog.Steady ledgerProtocol h rpc J E (getQuery ref index) := by
  refine Prog.steady_bind (stays_getEpoch index) fun e => ?_
  split
  · exact Prog.steady_pure _
  · exact stays_useAfterFree

theorem stays_modifyQuery (index : UInt64) (f : QueryType → QueryType) :
    Prog.Steady ledgerProtocol h rpc J E (modifyQuery ref index f) :=
  Prog.steady_bind (stays_getQuery index) fun _ => stays_modifyEpoch index _

theorem stays_enqueue (ref : Nat) [Carries ref J] (coroutine : Option HandlerId) :
    Prog.Steady ledgerProtocol h rpc J E (enqueueCompletionQueue coroutine) := by
  intro ph s₀ s hJ
  have hJ' : J ph s₀ { s with completionQueue := s.completionQueue ++ [coroutine] } :=
    Carries.congr ref hJ rfl
  exact hJ'

theorem stays_handOver (index : UInt64) (q : QueryType) :
    Prog.Steady ledgerProtocol h rpc J E (handOver h ref index q) :=
  Prog.steady_bind (stays_enqueue ref _) fun _ => stays_modifyEpoch index _

theorem stays_checkServerStub
    (hE : ∀ {status ph s₀ s}, J ph s₀ s → E (.finishErrorYieldNone status) ph s₀ s) :
    Prog.Steady ledgerProtocol h rpc J E (checkServerStub ref) := by
  refine Prog.steady_bind stays_getContext fun hctx =>
    Prog.steady_bind (stays_modify (fun _ => rfl) fun _ => rfl) fun _ => ?_
  split
  · exact fun _ _ _ hJ => hE hJ
  · exact Prog.steady_pure _

end Carries

theorem stays_throw {x : Exn} (hx : About ref x) :
    Stays h rpc ref inside (Prog.throw x : Handler α) := fun _ _ _ hin => ⟨hin, hx⟩

/-- Within the scope, with the session seen. -/
def Firm (ref : Nat) (inside : Bool) (ph : Hold) (s₀ s : HandlerContext) : Prop :=
  Within ref inside ph s₀ s ∧ Valid ref s

instance (ref : Nat) (inside : Bool) : Carries ref (Firm ref inside) where
  valid hf _ := hf.2
  congr hf hL := ⟨hf.1.congr hL, (valid_congr hL).2 hf.2⟩

theorem Firm.park {ph : Hold} {s₀ s : HandlerContext} (hf : Firm ref inside ph s₀ s)
    (hrpc : Borrows rpc) {spot : Spot} (hspot : spot ≠ .waiting) :
    ledgerProtocol.Step h rpc ph s₀ (some (.held ref inside spot)) s :=
  (hf.1.seen hf.2).park hrpc hspot

/-- Reading the session, and what follows once it was seen. -/
theorem firm_getSession {f : SessionType → Handler α}
    {Q : α → Hold → HandlerContext → HandlerContext → Prop}
    {E : Exn → Hold → HandlerContext → HandlerContext → Prop} {ph : Hold} {s₀ s : HandlerContext}
    (hin : Within ref inside ph s₀ s)
    (hf : ∀ session, Firm ref inside ph s₀ s → Prog.Sat ledgerProtocol h rpc Q E (f session) ph s₀ s) :
    Prog.Sat ledgerProtocol h rpc Q E (getSession ref >>= f) ph s₀ s :=
  Prog.sat_bind.2 (sat_borrow hin.valid fun session hs => hf session ⟨hin, session, hs⟩)

theorem firm_modifyEpoch (index : UInt64) (f : EpochType → EpochType)
    {E : Exn → Hold → HandlerContext → HandlerContext → Prop} {ph : Hold} {s₀ s : HandlerContext}
    (hin : Within ref inside ph s₀ s) :
    Prog.Sat ledgerProtocol h rpc (fun _ => Firm ref inside) E (modifyEpoch ref index f) ph s₀ s := by
  have hwrite : ∀ e : EpochType, Prog.Steady ledgerProtocol h rpc (Firm ref inside) E
      (modifySession ref fun session => { session with epochs := session.epochs.insert index (f e) }) :=
    fun _ => stays_modify (fun _ => rfl) fun _ => rfl
  refine Prog.sat_bind.2 (firm_getSession hin fun session hfirm => ?_)
  split
  · exact hwrite _ _ _ _ hfirm
  · exact fun _ => .other rfl

theorem firm_getEpoch (index : UInt64)
    {E : Exn → Hold → HandlerContext → HandlerContext → Prop} {ph : Hold} {s₀ s : HandlerContext}
    (hin : Within ref inside ph s₀ s) :
    Prog.Sat ledgerProtocol h rpc (fun _ => Firm ref inside) E (getEpoch ref index) ph s₀ s := by
  refine firm_getSession hin fun session hfirm => ?_
  split
  · exact hfirm
  · exact fun _ => .other rfl

theorem firm_modifyQuery (index : UInt64) (f : QueryType → QueryType)
    {E : Exn → Hold → HandlerContext → HandlerContext → Prop} {ph : Hold} {s₀ s : HandlerContext}
    (hin : Within ref inside ph s₀ s) :
    Prog.Sat ledgerProtocol h rpc (fun _ => Firm ref inside) E (modifyQuery ref index f) ph s₀ s := by
  have hquery : Prog.Steady ledgerProtocol h rpc (Within ref inside) E (getQuery ref index) :=
    stays_getQuery index
  exact Prog.sat_bind.2 (Prog.sat_mono (hquery _ _ _ hin)
    (fun _ _ _ _ hin => firm_modifyEpoch index _ hin) fun _ _ _ _ he => he)

theorem firm_handOver (index : UInt64) (q : QueryType)
    {E : Exn → Hold → HandlerContext → HandlerContext → Prop} {ph : Hold} {s₀ s : HandlerContext}
    (hin : Within ref inside ph s₀ s) :
    Prog.Sat ledgerProtocol h rpc (fun _ => Firm ref inside) E (handOver h ref index q) ph s₀ s := by
  have hin' : Within ref inside ph s₀
      { s with completionQueue := s.completionQueue ++ [q.coroutine] } := hin.congr rfl
  exact firm_modifyEpoch index _ hin'

/-! ### Check-ins -/

/-- The call that makes the server check in. -/
theorem sat_triggerCall (hw : Worker rpc ref inside) {c : MachineCall} (hc : c.triggers = true)
    (deadline : String) {ph : Hold} {s₀ s : HandlerContext} (hin : Within ref inside ph s₀ s) :
    Prog.Sat ledgerProtocol h rpc
      (fun _ ph s₀ s => ph = .held ref inside .trigger ∧ s₀ = s) (Thrown ref inside)
      (callOrTaint ref c deadline) ph s₀ s := by
  simp only [callOrTaint, call, Prog.bind_eq, Prog.sat_bind]
  refine sat_borrow hin.valid fun session hs => ?_
  split
  · refine ⟨.held ref inside .trigger, hw.triggering c hc,
      (hin.seen ⟨session, hs⟩).park hw.borrows Spot.noConfusion, fun reply s₁ _ => ?_⟩
    simp only [Prog.Sat, checkStatusOrTaint]
    split
    · exact ⟨rfl, rfl⟩
    · exact ⟨within_refl Spot.noConfusion s₁, about_taint ref _⟩
  · exact fun _ => .other rfl

/-- The entry is erased once the check-in arrived, whatever it says. -/
theorem within_erased {s : HandlerContext} {cctx : CheckinContext} {status : Bool}
    (hwait : s.waitingCheckin = some cctx) (hstatus : cctx.status = some status) :
    Within ref inside (.held ref inside .waiting) s { s with
      waitingCheckin := none
      alarms := cancelAlarm s.alarms cctx.alarm } := by
  refine ⟨fun hb => borrowed_held.1 hb, fun hv => ?_⟩
  rcases valid_iff.1 hv with ⟨lock, p, hs⟩
  refine .held lock p (fun _ => ⟨cctx, status, hwait, hstatus⟩) hs ?_ (fun hout => ?_)
    fun hin => Or.inl hin
  · rw [← hs]
    unfold Ledger.settle Ledger.erase Ledger.of
    simp only [hwait]
  · rw [hout]
    rfl

/-- A trigger and the check-in it causes. -/
theorem stays_trigger (hw : Worker rpc ref inside) {trigger : Handler Unit}
    (hgo : ∀ ph s₀ s, Within ref inside ph s₀ s → Prog.Sat ledgerProtocol h rpc
      (fun _ ph s₀ s => ph = .held ref inside .trigger ∧ s₀ = s) (Thrown ref inside)
      trigger ph s₀ s) :
    Stays h rpc ref inside (triggerAndWaitCheckin h ref trigger) := by
  intro ph s₀ s hin
  simp only [triggerAndWaitCheckin, Prog.bind_eq, Prog.sat_bind]
  refine sat_borrow hin.valid fun session hs => ?_
  show Prog.Sat ledgerProtocol h rpc _ _ getContext ph s₀ s
  show Prog.Sat ledgerProtocol h rpc _ _ (if s.waitingCheckin.isSome = true then _ else _) ph s₀ s
  split
  · next hsome =>
      refine fun hb => .waiting hw.triggers ?_
      rw [← (hin.seen ⟨session, hs⟩).waiting]
      exact Option.isSome_iff_ne_none.1 hsome
  · refine Prog.sat_bind.2 (Prog.sat_mono (hgo ph s₀ s hin) ?_ fun _ _ _ _ he => he)
    rintro - - s₁ - ⟨rfl, rfl⟩
    -- the response to the trigger arrived
    simp only [Prog.sat_bind]
    refine sat_borrow (fun hb => borrowed_held.1 hb) fun session₁ hs₁ => ?_
    refine ⟨.held ref inside .waiting, hw.checkin,
      ⟨borrowed_held.2 ⟨session₁, hs₁⟩, .register⟩, fun _ s₂ _ => ?_⟩
    -- the check-in or the deadline resumed the handler
    refine sat_borrow (fun hb => borrowed_held.1 hb) fun session₂ hs₂ => ?_
    refine sat_context ?_
    cases hwait : s₂.waitingCheckin with
    | none => exact fun _ => .erased rfl hwait
    | some cctx =>
        dsimp only
        cases hstatus : cctx.status with
        | none => exact fun _ => .unset rfl hwait hstatus
        | some status =>
            have herased : Within ref inside (.held ref inside .waiting) s₂ _ :=
              within_erased hwait hstatus
            cases status with
            | false => exact ⟨herased, about_taint ref _⟩
            | true =>
                have hstub : Stays h rpc ref inside (checkServerStub ref) :=
                  stays_checkServerStub fun hin => ⟨hin, about_finishError ref _⟩
                exact Prog.sat_bind.2 (hstub _ _ _ herased)

theorem stays_snapshot (hw : Worker rpc ref inside) :
    Stays h rpc ref inside (triggerAndWaitCheckin h ref (snapshot ref)) :=
  stays_trigger hw fun _ _ _ hin => sat_triggerCall (c := .snapshot) hw rfl _ hin

theorem stays_rollback (hw : Worker rpc ref inside) :
    Stays h rpc ref inside (triggerAndWaitCheckin h ref (rollback ref)) :=
  stays_trigger hw fun _ _ _ hin => sat_triggerCall (c := .rollback) hw rfl _ hin

/-! ### Inputs -/

theorem stays_quiet (hw : Worker rpc ref inside) {c : Handler α} (hc : Quiet ref c) :
    Stays h rpc ref inside c := stays_tame hw.toCaller (tame_of_quiet hc)

theorem stays_runFittingInput (hw : Worker rpc ref inside) (fuel : Nat) (index : UInt64)
    (epochInputIndex : Nat) (input : InputType) (run : InputRun) :
    Stays h rpc ref inside (runFittingInput fuel ref index epochInputIndex input run) := by
  refine stays_bind (stays_quiet hw quiet_clearMemoryRanges) fun _ =>
    stays_bind stays_getSession fun _ =>
    stays_bind (stays_quiet hw (quiet_writeEvmAbiString _ _)) fun _ =>
    stays_bind stays_getSession fun _ =>
    stays_bind (stays_quiet hw (quiet_writeMemoryRange _ _)) fun _ =>
    stays_bind (stays_quiet hw quiet_resetIflagsY) fun _ =>
    stays_bind (stays_quiet hw (quiet_checkHtifYieldAckData _)) fun _ =>
    stays_bind stays_getSession fun session => stays_bind stays_getContext fun hctx =>
    stays_bind (stays_quiet hw (quiet_runInput _ _ _ _ _ _ _)) fun run =>
    stays_bind (stays_getEpoch index) fun e => stays_quiet hw ?_
  dsimp only
  by_cases hv : e.vouchersTree.size ≠ epochInputIndex
  · rw [if_pos hv]
    exact fun _ => Fails.taint _
  · rw [if_neg hv]
    split
    · exact quiet_bind (quiet_throwTaint _ _) fun _ => quiet_pure _
    · exact quiet_pure _

theorem stays_executeInput (hw : Worker rpc ref inside) (fuel : Nat) (index : UInt64)
    (epochInputIndex : Nat) (input : InputType) :
    Stays h rpc ref inside (executeInput fuel ref index epochInputIndex input) := by
  refine stays_bind stays_getSession fun session => ?_
  dsimp only
  split
  · exact stays_runFittingInput hw _ _ _ _ _
  · exact stays_pure _

theorem stays_pushLeaf [Keccak] (hw : Worker rpc ref inside) (index : UInt64) (kind : OutputKind)
    (epochInputIndex : Nat) (hash : HashType) :
    Stays h rpc ref inside (pushLeaf ref index kind epochInputIndex hash) :=
  stays_bind (stays_getEpoch index) fun _ => stays_bind (stays_quiet hw (quiet_ofExcept _)) fun _ =>
    stays_bind (stays_modifyEpoch index _) fun _ => stays_quiet hw (quiet_ofExcept _)

theorem stays_collectOutputs [Keccak] (hw : Worker rpc ref inside) (index : UInt64)
    (kind : OutputKind) (epochInputIndex count : Nat) :
    Stays h rpc ref inside (collectOutputs ref index kind epochInputIndex count) := by
  refine stays_bind stays_getSession fun session =>
    stays_bind (stays_quiet hw (quiet_getProof _ _)) fun proof =>
    stays_bind (stays_pushLeaf hw _ _ _ _) fun inEpoch =>
    stays_bind (stays_quiet hw (quiet_readMemory _ _)) fun hashes => stays_quiet hw ?_
  dsimp only
  split
  · exact fun _ => Fails.taint _
  · exact quiet_bind (quiet_getKeccaks _ _ _ _) fun _ => quiet_pure _

theorem stays_recordAccepted [Keccak] (hw : Worker rpc ref inside) (index number : UInt64)
    (epochInputIndex : Nat) (run : InputRun) :
    Stays h rpc ref inside (recordAccepted ref index number epochInputIndex run) :=
  stays_bind (stays_collectOutputs hw _ _ _ _) fun _ =>
    stays_bind (stays_collectOutputs hw _ _ _ _) fun _ =>
    stays_bind (stays_quiet hw quiet_getRootHash) fun _ =>
    stays_bind (stays_modifyEpoch index _) fun _ => stays_modify (fun _ => rfl) fun _ => rfl

theorem stays_recordSkipped [Keccak] (hw : Worker rpc ref inside) (index number : UInt64)
    (epochInputIndex : Nat) (run : InputRun) :
    Stays h rpc ref inside (recordSkipped h ref index number epochInputIndex run) := by
  refine stays_bind (stays_rollback hw) fun _ => stays_bind (stays_pushLeaf hw _ _ _ _) fun _ =>
    stays_bind (stays_pushLeaf hw _ _ _ _) fun _ =>
    stays_bind (stays_quiet hw quiet_getRootHash) fun _ =>
    stays_bind (stays_getEpoch index) fun e => ?_
  split
  · exact stays_throw (about_taint ref _)
  · exact stays_modifyEpoch index _

theorem stays_processInput [Keccak] (hw : Worker rpc ref inside) (fuel : Nat) (index : UInt64)
    (input : InputType) : Stays h rpc ref inside (processInput fuel h ref index input) := by
  refine stays_bind stays_getSession fun session => stays_bind (stays_getEpoch index) fun e =>
    stays_bind (stays_snapshot hw) fun _ => stays_bind (stays_executeInput hw _ _ _ _) fun run =>
    stays_bind ?_ fun _ => stays_bind (stays_modify (fun _ => rfl) fun _ => rfl) fun _ =>
      stays_modifyEpoch index _
  unfold recordInput
  split
  · exact stays_recordAccepted hw _ _ _ _
  · exact stays_recordSkipped hw _ _ _ _

/-! ### Queries -/

theorem stays_runQuery (hw : Worker rpc ref inside) (fuel : Nat) (index : UInt64)
    (mcycleIncrement maxMcycle : UInt64) (startTime : Int) (maxDeadline : UInt64) (n : Nat)
    (currentMcycle : UInt64) :
    Stays h rpc ref inside (runQuery fuel ref index mcycleIncrement maxMcycle startTime maxDeadline n
      currentMcycle) := by
  induction n generalizing currentMcycle with
  | zero => exact fun _ _ _ _ => trivial
  | succ n ih =>
      refine stays_bind (stays_quiet hw (quiet_runMachine _ _ _ _ _ _)) fun r => ?_
      cases r with
      | none => exact stays_modifyQuery index _
      | some r =>
          dsimp only
          -- one case for each way the machine can stop
          split
          · exact stays_modifyQuery index _
          split
          · exact stays_modifyQuery index _
          split
          · split
            · exact stays_modifyQuery index _
            split
            · exact stays_modifyQuery index _
            split
            · exact stays_bind (stays_modifyQuery index _) fun _ =>
                stays_bind (stays_quiet hw quiet_readTxPayload) fun _ => stays_modifyQuery index _
            · exact stays_throw (about_taint ref _)
          split
          · exact stays_throw (about_taint ref _)
          split
          · exact stays_bind (stays_quiet hw quiet_readReport) fun _ =>
              stays_bind (stays_modifyQuery index _) fun _ => ih _
          · exact ih _

theorem stays_processPendingQuery (hw : Worker rpc ref inside) (fuel : Nat) (index : UInt64) :
    Stays h rpc ref inside (processPendingQuery fuel h ref index) := by
  have hexecute : Stays h rpc ref inside (executeQuery fuel ref index) :=
    stays_bind (stays_quiet hw quiet_clearRxBuffer) fun _ => stays_bind stays_getSession fun _ =>
      stays_bind (stays_getQuery index) fun _ =>
      stays_bind (stays_quiet hw (quiet_writeEvmAbiString _ _)) fun _ =>
      stays_bind (stays_quiet hw quiet_resetIflagsY) fun _ =>
      stays_bind (stays_quiet hw (quiet_setHtifYieldAckData _)) fun _ =>
      stays_bind stays_getSession fun _ => stays_bind stays_getContext fun _ =>
      stays_bind (stays_modifyQuery index _) fun _ => stays_runQuery hw _ _ _ _ _ _ _ _
  refine stays_bind (stays_getEpoch index) fun e => ?_
  split
  · exact stays_pure _
  · refine stays_bind stays_getSession fun session => stays_bind (stays_modifyQuery index _) fun _ =>
      stays_bind (stays_getQuery index) fun q => ?_
    split
    · exact stays_bind (stays_modifyQuery index _) fun _ => stays_pure _
    · exact stays_bind (stays_snapshot hw) fun _ => stays_bind hexecute fun _ => stays_rollback hw

end Worker

/-! ### The scope of the processing lock -/

section Processing

variable [Keccak] {request : AdvanceStateRequest} {h : HandlerId} {ref : Nat}

theorem stays_pendingInputsLoop (fuel : Nat) (index : UInt64) (n : Nat) :
    Stays h (.advanceState request) ref true (pendingInputsLoop fuel h ref index n) := by
  have hw : Worker (.advanceState request) ref true := worker_advance request ref
  induction n with
  | zero => exact fun _ _ _ _ => trivial
  | succ n ih =>
      refine stays_bind (stays_getEpoch index) fun e => ?_
      split
      · exact stays_pure _
      · refine stays_bind (stays_processInput hw _ _ _) fun _ =>
          stays_bind (stays_getEpoch index) fun e => ?_
        split
        · next q hq =>
            intro ph s₀ s hin
            refine Prog.sat_bind.2 (Prog.sat_mono (firm_handOver index q hin) (fun _ ph s₀ s hf => ?_)
              fun _ _ _ _ he => he)
            exact ⟨.held ref true .plain, .handOff, hf.park hw.borrows Spot.noConfusion,
              fun _ s₁ _ => ih _ _ _ (within_refl Spot.noConfusion s₁)⟩
        · exact ih

omit [Keccak] in
/-- What a write to the session is in the ledger. -/
theorem ledger_session (s : HandlerContext) (session : SessionType) :
    Ledger.of { s with session := some (ref, session) } = { Ledger.of s with
      session := some ⟨ref, session.sessionLock, session.processingLock⟩ } := rfl

omit [Keccak] in
/-- The destructor of the processing lock. -/
theorem sat_processed {E : Exn → Hold → HandlerContext → HandlerContext → Prop} {ph : Hold}
    {s₀ s : HandlerContext} (hin : Within ref true ph s₀ s) :
    Prog.Sat ledgerProtocol h (.advanceState request) (fun _ => Within ref false) E
      (modifySession ref (processingLockField.set false)) ph s₀ s := by
  refine sat_write hin.valid fun session hs => ?_
  have hout : Seen ref false ph s₀
      { s with session := some (ref, processingLockField.set false session) } := by
    cases hin.seen ⟨session, hs⟩ with
    | fresh hout => cases hout
    | held lock p hset hs₀ hL hp hinside =>
        refine .held session.sessionLock false hset hs₀ ?_ (fun _ => ?_) Bool.noConfusion
        · rw [ledger_session, hL]
          rfl
        · -- the lock was the handler's own, or it was free
          rcases hinside rfl with rfl | rfl
          · rfl
          · simp only [Bool.and_false]
  exact hout.within

omit [Keccak] in
/-- A handler that finds the processing lock free takes it. -/
theorem Within.process {s₀ s : HandlerContext} {session : SessionType}
    (hin : Within ref false (.held ref false .plain) s₀ s) (hs : s.session = some (ref, session))
    (hfree : session.processingLock = false) :
    Within ref true (.held ref false .plain) s₀
      { s with session := some (ref, processingLockField.set true session) } := by
  cases hin.seen ⟨session, hs⟩ with
  | held lock p hset hs₀ hL hp =>
      have hp₀ : p = false := by
        have hentry := congrArg (fun L => L.session.map SessionEntry.processing) hL
        simp only [Ledger.of, hs, Option.map_some, Option.some.injEq] at hentry
        exact hentry.symm.trans hfree
      refine (Seen.held session.sessionLock true hset hs₀ ?_ Bool.noConfusion
        fun _ => Or.inr ((hp rfl).symm.trans hp₀)).within
      rw [ledger_session, hL]
      rfl

theorem within_processPendingInputs (fuel : Nat) (index : UInt64) {s₀ s : HandlerContext}
    (hin : Within ref false (.held ref false .plain) s₀ s) :
    Prog.Sat ledgerProtocol h (.advanceState request) (fun _ => Within ref false)
      (Thrown ref false) (processPendingInputs fuel h ref index) (.held ref false .plain) s₀ s := by
  simp only [processPendingInputs, autoLock, LockField.acquire, Prog.bind_eq, Prog.sat_bind]
  refine sat_borrow hin.valid fun session hs => ?_
  split
  · exact ⟨hin, about_taint ref _⟩
  · next hfree =>
      simp only [Prog.sat_bind]
      refine sat_borrow hin.valid fun session' hs' => ?_
      rw [hs] at hs'
      cases hs'
      split
      · exact ⟨hin, about_stdException ref _⟩
      · refine sat_write hin.valid fun session' hs' => ?_
        rw [hs] at hs'
        cases hs'
        rw [Prog.sat_andFinally]
        have hinside : Within ref true (.held ref false .plain) s₀
            { s with session := some (ref, processingLockField.set true session) } :=
          hin.process hs (Bool.eq_false_iff.2 hfree)
        refine Prog.sat_mono (stays_pendingInputsLoop fuel index fuel _ _ _ hinside)
          (fun _ ph s₀ s hin => sat_processed hin) fun x ph s₀ s hthrown => ?_
        exact Prog.sat_mono (sat_processed hthrown.1) (fun _ _ _ _ hout => ⟨hout, hthrown.2⟩)
          fun _ _ _ _ he => he

end Processing

/-! ### The scope of the session lock -/

/-- What holds when the scope of the session lock was left. -/
inductive Left (ref : Nat) : Hold → HandlerContext → HandlerContext → Prop
  | fresh {s₀ s : HandlerContext} (hv : Valid ref s₀) (hL : Ledger.of s = Ledger.of s₀) :
      Left ref .fresh s₀ s
  | held {s₀ s : HandlerContext} {inside lock p : Bool} {spot : Spot}
      (hset : Marked spot (Ledger.of s₀)) (hs : (Ledger.of s₀).session = some ⟨ref, lock, p⟩)
      (hL : Ledger.of s = { (Ledger.of s₀).settle spot with session := some ⟨ref, false, !inside && p⟩ }) :
      Left ref (.held ref inside spot) s₀ s

/-- What holds in a catch clause: the handler had no reference yet, or it gave
    up its lock. -/
def Unwound (x : Exn) (ph : Hold) (s₀ s : HandlerContext) : Prop :=
  (ph = .fresh ∧ s = s₀ ∧ ∃ status, x = .finishErrorYieldNone status) ∨
    ∃ ref, Left ref ph s₀ s ∧ About ref x

section Left

variable {h : HandlerId} {rpc : Rpc} {ref : Nat} {ph : Hold} {s₀ s s' : HandlerContext}

theorem Left.congr (hl : Left ref ph s₀ s) (hL : Ledger.of s' = Ledger.of s) :
    Left ref ph s₀ s' := by
  cases hl with
  | fresh hv hL₀ => exact .fresh hv (hL.trans hL₀)
  | held hset hs hL₀ => exact .held hset hs (hL.trans hL₀)

theorem Left.valid (hl : Left ref ph s₀ s) : Valid ref s := by
  cases hl with
  | fresh hv hL => exact (valid_congr hL).2 hv
  | held hset hs hL => exact valid_iff.2 ⟨false, _, by rw [hL]⟩

instance (ref : Nat) : Carries ref (Left ref) where
  valid hl _ := hl.valid
  congr hl hL := hl.congr hL

/-- A handler that has no reference yet can stop at once. -/
theorem rest_fresh (s : HandlerContext) {t : Option Hold} (ht : Over t) :
    ledgerProtocol.Step h rpc .fresh s t s := ⟨borrowed_fresh s, .rest ht⟩

theorem end_idle (s : HandlerContext) : ledgerProtocol.Step h rpc .idle s none s :=
  ⟨borrowed_of_none rfl s, .idle⟩

/-- The handler ends, or parks with nothing left to do. -/
theorem Left.rest (hl : Left ref ph s₀ s) {t : Option Hold} (ht : Over t) :
    ledgerProtocol.Step h rpc ph s₀ t s := by
  cases hl with
  | fresh hv hL =>
      refine ⟨borrowed_fresh s₀, ?_⟩
      rw [hL]
      exact .rest ht
  | held hset hs hL =>
      refine ⟨borrowed_held.2 (valid_iff.2 ⟨_, _, hs⟩), ?_⟩
      rw [hL]
      exact .leave hset hs ht

/-- The destructor of the session lock. -/
theorem sat_unlock {E : Exn → Hold → HandlerContext → HandlerContext → Prop}
    (hin : Within ref false ph s₀ s) :
    Prog.Sat ledgerProtocol h rpc (fun _ => Left ref) E
      (modifySession ref (sessionLockField.set false)) ph s₀ s := by
  refine sat_write hin.valid fun session hs => ?_
  have hproc : ∀ {L : Ledger} {lock p : Bool}, Ledger.of s = { L with
      session := some ⟨ref, lock, p⟩ } → session.processingLock = p := by
    intro L lock p hL
    have hentry := congrArg (fun L => L.session.map SessionEntry.processing) hL
    simp only [Ledger.of, hs, Option.map_some, Option.some.injEq] at hentry
    exact hentry
  cases hin.seen ⟨session, hs⟩ with
  | @fresh _ _ p hout hs₀ hL =>
      refine .fresh (valid_iff.2 ⟨false, p, hs₀⟩) ?_
      rw [ledger_session, hL]
      show { Ledger.of s₀ with session := some ⟨ref, false, session.processingLock⟩ } = _
      rw [hproc hL, ← hs₀]
  | held lock p hset hs₀ hL hp =>
      refine .held hset hs₀ ?_
      rw [ledger_session, hL, ← hp rfl]
      show { (Ledger.of s₀).settle _ with session := some ⟨ref, false, session.processingLock⟩ } = _
      rw [hproc hL]

/-- The scope of the session lock, behind the test that refuses a session that
    is already locked. The destructor is part of the postconditions. -/
theorem sat_lockScope {Q : Unit → Hold → HandlerContext → HandlerContext → Prop}
    {E : Exn → Hold → HandlerContext → HandlerContext → Prop} {name peer : String}
    {body : Handler Unit} (hv : Valid ref s)
    (hE : ∀ status, E (.finishErrorYieldNone status) .fresh s s)
    (hbody : ∀ s', Within ref false .fresh s s' → Prog.Sat ledgerProtocol h rpc
      (fun _ => Prog.Sat ledgerProtocol h rpc Q E (modifySession ref (sessionLockField.set false)))
      (fun x => Prog.Sat ledgerProtocol h rpc (fun _ => E x) E
        (modifySession ref (sessionLockField.set false)))
      (modifySession ref (fun session => { session with
        sessionLockReason := getSessionLockReason name peer }) >>= fun _ => body) .fresh s s') :
    Prog.Sat ledgerProtocol h rpc Q E (withSessionLock ref name peer body) .fresh s s := by
  simp only [withSessionLock, autoLock, LockField.acquire, Prog.bind_eq, Prog.sat_bind]
  refine sat_borrow (fun _ => hv) fun session hs => ?_
  split
  · exact hE _
  · next hfree =>
      simp only [Prog.sat_bind]
      refine sat_borrow (fun _ => hv) fun session' hs' => ?_
      rw [hs] at hs'
      cases hs'
      split
      · next hlocked => exact absurd hlocked hfree
      · refine sat_write (fun _ => hv) fun session' hs' => ?_
        rw [hs] at hs'
        cases hs'
        rw [Prog.sat_andFinally]
        refine hbody _ (Seen.fresh (p := session.processingLock) rfl ?_ (ledger_session s _)).within
        have hlock : session.sessionLock = false := Bool.eq_false_iff.2 hfree
        unfold Ledger.of
        rw [hs, ← hlock]
        rfl

/-- The scope of the lock around a body that stays in it. -/
theorem sat_withLock {name peer : String} {body : Handler Unit} (hv : Valid ref s)
    (hbody : Stays h rpc ref false body) :
    Prog.Sat ledgerProtocol h rpc (fun _ => Left ref) (fun x ph s₀ s => Left ref ph s₀ s ∧ About ref x)
      (withSessionLock ref name peer body) .fresh s s := by
  refine sat_lockScope hv (fun status => ⟨.fresh hv rfl, about_finishError ref _⟩) fun s' hin => ?_
  have hlocked : Stays h rpc ref false
      (modifySession ref (fun session => { session with
        sessionLockReason := getSessionLockReason name peer }) >>= fun _ => body) :=
    stays_bind (stays_modify (fun _ => rfl) fun _ => rfl) fun _ => hbody
  refine Prog.sat_mono (hlocked _ _ _ hin) (fun _ _ _ _ hin => sat_unlock hin)
    fun x ph s₀ s hthrown => ?_
  exact Prog.sat_mono (sat_unlock hthrown.1) (fun _ _ _ _ hl => ⟨hl, hthrown.2⟩)
    fun _ _ _ _ he => he

/-- The answer with which a handler in the scope of the lock is done. -/
theorem sat_finished (hf : Firm ref false ph s₀ s) (hrpc : Borrows rpc) (response : Response) :
    Prog.Sat ledgerProtocol h rpc (fun _ => Within ref false) (Thrown ref false)
      (finish rpc response) ph s₀ s := by
  have hf' : Firm ref false ph s₀ { s with sent := s.sent ++ [(rpc, .finish response)] } :=
    Carries.congr ref hf rfl
  exact ⟨.held ref false .plain, .answered hrpc, hf'.park hrpc Spot.noConfusion,
    fun _ s₁ _ => within_refl Spot.noConfusion s₁⟩

/-- The answer of a catch clause. -/
theorem sat_rejected {E : Exn → Hold → HandlerContext → HandlerContext → Prop} {status : Status}
    (hstep : ledgerProtocol.Step h rpc ph s₀ (some .idle) s) :
    Prog.Sat ledgerProtocol h rpc
      (fun _ ph s₀ s => ledgerProtocol.Step h rpc ph s₀ none s) E (finishWithError rpc status)
      ph s₀ s :=
  ⟨.idle, .refused, hstep, fun _ s₁ _ => end_idle s₁⟩

theorem Unwound.rest {x : Exn} (hx : Unwound x ph s₀ s) :
    ledgerProtocol.Step h rpc ph s₀ (some .idle) s := by
  rcases hx with ⟨rfl, rfl, -⟩ | ⟨ref, hl, -⟩
  · exact rest_fresh s (Or.inr rfl)
  · exact hl.rest (Or.inr rfl)

theorem keeps_onArrival {body : Handler Unit} (hbody : ledgerProtocol.Keeps h rpc body .fresh s) :
    ledgerProtocol.Keeps h rpc (onArrival body) .fresh s := by
  show Prog.Sat ledgerProtocol h rpc _ _ (if s.ok then body else Prog.pure ()) .fresh s s
  split
  · exact hbody
  · exact rest_fresh s (Or.inl rfl)

/-- The lookup of the session, and the refusal if there is none. -/
theorem sat_found {notFound : String} {Q : Unit → Hold → HandlerContext → HandlerContext → Prop}
    {f : Nat → Handler Unit}
    (hf : ∀ ref, Valid ref s → Prog.Sat ledgerProtocol h rpc Q Unwound (f ref) .fresh s s) :
    Prog.Sat ledgerProtocol h rpc Q Unwound (findSession notFound >>= f) .fresh s s := by
  simp only [findSession, Prog.bind_eq, Prog.sat_bind]
  refine sat_context ?_
  split
  · next generation session hs => exact hf generation ⟨session, hs⟩
  · exact Or.inl ⟨rfl, rfl, _, rfl⟩

end Left

end ServerManager
