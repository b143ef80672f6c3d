import ServerManager.Theory.Lifecycle
import ServerManager.Theory.Requests

/-!
# Inputs and New Sessions

The two requests that do their work in several stages. AdvanceState answers as
soon as the input is in the queue, gives the lock back and then processes what is
there; an error after that is a second answer, and says nothing about the first.
StartSession installs its session before it has checked anything, and whatever
goes wrong afterwards erases it again.

## Theorems

* `deals_advanceState`, `deals_startSession`: The two requests.
* `deals_request`: What becomes of a request, whichever it is.
-/

namespace ServerManager

open Coroutine

variable [Keccak]

section Arrivals

variable {server : Server} {v : Own} {m : server.State} {ref : Nat} {x : SessionType}
  {fuel : Nat} {self : HandlerId} {peer : String}
variable {Q : Unit → server.State → Own → Prop} {E : Exn → server.State → Own → Prop}

/-! ### AdvanceState -/

omit [Keccak] in
/-- An input is refused, or it is one for the active epoch of a session that is not
    tainted. -/
theorem turns_checkAdvanceState {request : AdvanceStateRequest}
    {R : InputType → server.State → SessionType → Prop} {E : Exn → server.State → SessionType → Prop}
    (hR : ∀ input m', x.tainted = false → request.activeEpochIndex = x.activeEpochIndex →
      R input m' x)
    (hE : ∀ m' status, E (.finishErrorYieldNone status) m' x) :
    Turns server ref v R E (checkAdvanceState ref request) m x := by
  refine turns_bind (turns_checkTainted (fun htaint => ?_) fun status => hE m status)
  refine turns_bind (turns_getSession fun address => ?_)
  refine turns_ite (fun _ => turns_throw (hE _ _)) fun hindex => ?_
  cases (x.placed address).epochs.lookup (x.placed address).activeEpochIndex with
  | none => exact turns_throw (hE _ _)
  | some e =>
      refine turns_ite (fun _ => turns_throw (hE _ _)) fun _ => ?_
      refine turns_ite (fun _ => turns_throw (hE _ _)) fun _ => ?_
      refine turns_bind (turns_mono (turns_refuses (I := fun _ => True)
        (refuses_checkInputMetadata _ _) (fun _ _ _ _ _ _ _ => trivial) trivial) ?_ ?_)
      · rintro metadata m' x' ⟨-, rfl⟩
        exact turns_pure (hR _ m' htaint (not_not.1 hindex).symm)
      · rintro e m' x' ⟨⟨status, rfl⟩, -, rfl⟩
        exact hE m' status

/-- What the scope of the lock leaves to the catch clauses of AdvanceState: nothing
    has happened yet, or the input was accepted before something failed. -/
def Lapsed (server : Server) (request : AdvanceStateRequest) (v : Own) (e : Exn) (v' : Own) : Prop :=
  Spared v v' ∨ Shaken server v [(.advanceState request, .finish .void)] e v'

/-- AdvanceState in the locked session. -/
theorem ensures_advanceStateBody {request : AdvanceStateRequest} (hx : InOrder server (v.put ref x))
    (hopen : x.sessionLock = false) (reason : String) :
    (advanceStateBody fuel self ref request).Ensures (crew server).toSetting
      (fun _ _ v' => ∀ x', v'.session = some (ref, x') → Dealt server (.advanceState request)
        (v.put ref x) (v'.put ref (sessionLockField.set false x')))
      (fun e _ v' => ∀ x', v'.session = some (ref, x') → Lapsed server request (v.put ref x) e
        (v'.put ref (sessionLockField.set false x')))
      m (v.put ref (x.lockedFor reason)) := by
  refine ensures_turns (turns_checkAdvanceState (R := fun _ _ x' => x' = x.lockedFor reason ∧
    x.tainted = false ∧ request.activeEpochIndex = x.activeEpochIndex)
    (E := fun _ _ x' => x' = x.lockedFor reason) (fun _ _ h₁ h₂ => ⟨rfl, h₁, h₂⟩) fun _ _ => rfl) ?_ ?_
  swap
  · rintro e m' x' rfl x₁ hx₁
    exact Or.inl (locked_spared hopen reason x₁ hx₁)
  rintro input m₁ x₁ ⟨rfl, htaint, hindex⟩
  have hbooks : SessionKept (Gathered server) (x.lockedFor reason) :=
    (hx.books ref _ rfl htaint).congr rfl rfl rfl
  -- the input is put in the queue, and the request answered
  refine ensures_turns (R := fun _ _ x' => SessionKept (Gathered server) x' ∧
    x'.activeEpochIndex = x.activeEpochIndex ∧ x'.sessionLock = true) (T := fun _ _ _ => False)
    (turns_modifyEpoch fun e he => ⟨?_, rfl, rfl⟩) ?_ fun _ _ _ hfalse => hfalse.elim
  · rw [hindex] at he ⊢
    exact hbooks.setActive he ((hbooks.kept _ e he).congr rfl rfl rfl rfl) rfl rfl
      fun hempty => ⟨hempty, rfl⟩
  rintro - m₂ x₂ ⟨hbooks₂, hindex₂, hlock₂⟩
  refine Prog.ensures_bind (ensures_finish rfl ?_)
  rw [put_answer]
  -- what the client sees of the rest
  have hdealt : ∀ x', SessionKept (Gathered server) x' → x'.activeEpochIndex = x.activeEpochIndex →
      ∀ x₁, ((v.answer (.advanceState request) (.finish .void)).put ref x').session = some (ref, x₁) →
        Dealt server (.advanceState request) (v.put ref x)
          (((v.answer (.advanceState request) (.finish .void)).put ref x').put ref
            (sessionLockField.set false x₁)) :=
    fun x' hbooks' hindex' => locked_dealt hx (fun _ => hbooks') (UInt64.le_of_eq hindex'.symm)
  refine ensures_turns (R := fun _ _ x' => SessionKept (Gathered server) x' ∧
    x'.activeEpochIndex = x.activeEpochIndex) (T := fun _ _ _ => False)
    (turns_release placed_session hlock₂ ⟨hbooks₂.congr rfl rfl rfl, hindex₂⟩) ?_
    fun _ _ _ hfalse => hfalse.elim
  rintro - m₃ x₃ ⟨hbooks₃, hindex₃⟩
  refine ensures_turns (R := fun _ _ x' => SessionKept (Gathered server) x' ∧
    x'.activeEpochIndex = x.activeEpochIndex) (T := fun _ _ _ => False)
    (turns_getEpoch fun _ _ => ⟨hbooks₃, hindex₃⟩) ?_ fun _ _ _ hfalse => hfalse.elim
  rintro e m₄ x₄ ⟨hbooks₄, hindex₄⟩
  refine ensures_ite (fun _ => ?_) fun _ => Prog.ensures_pure (hdealt x₄ hbooks₄ hindex₄)
  refine Prog.ensures_mono (turns_processPendingInputs hx.waiting hbooks₄ (hindex₄.trans hindex.symm))
    ?_ ?_
  · rintro - m₅ v₅ ⟨x₅, rfl, hbooks₅, hindex₅⟩
    exact hdealt x₅ hbooks₅ (hindex₅.trans hindex)
  · rintro e m₅ v₅ ⟨x₅, rfl, hindex₅, hbooks₅⟩ x' hx'
    cases hx'
    have hle : x.activeEpochIndex ≤ (sessionLockField.set false (x₅.placed "")).activeEpochIndex :=
      UInt64.le_of_eq (hindex₅.trans hindex).symm
    refine Or.inr ⟨hx.waiting, fun ref' y hy => ?_, ?_, rfl, fun status he => ?_⟩
    · cases hy
      exact hx.fresh ref _ rfl
    · exact (later_put hle).answer (q := .advanceState request) (.finish .void)
    · exact (inOrder_put (y := sessionLockField.set false (x₅.placed "")) hx fun _ =>
        (hbooks₅ status he).congr rfl rfl rfl).answer (q := .advanceState request) (.finish .void)

/-- Taking an entry of the epochs, which makes one when there is none. -/
theorem turns_epochsAt {index : UInt64} {R : EpochType → server.State → SessionType → Prop}
    {E : Exn → server.State → SessionType → Prop} (hR : ∀ e epochs, R e m { x with epochs := epochs }) :
    Turns server ref v R E (epochsAt ref index) m x := by
  refine turns_bind (turns_getSession fun address => ?_)
  cases (x.placed address).epochs.lookup index with
  | some e => exact turns_pure (hR e x.epochs)
  | none => exact turns_bind (turns_modifySession (fun _ => rfl) (turns_pure (hR _ _)))

/-- The session is tainted, and a query that waits is let in. -/
theorem ensures_taintAndHandOver {v' : Own} {status : Status}
    (hQ : ∀ m' x y, v'.session = some (ref, x) → y.tainted = true →
      y.activeEpochIndex = x.activeEpochIndex → Q () m' (v'.put ref y)) :
    (taintAndHandOver self ref status).Ensures (crew server).toSetting Q E m v' := by
  refine Prog.ensures_bind (ensures_modifySession (fun _ _ => rfl) fun x hx => ?_)
  -- whatever is done from here on leaves the session tainted
  have htainted : ∀ m' y, y.tainted = true ∧ y.activeEpochIndex = x.activeEpochIndex →
      Q () m' (v'.put ref y) := fun m' y hy => hQ m' x y hx hy.1 hy.2
  refine ensures_turns (R := fun _ _ y => y.tainted = true ∧
    y.activeEpochIndex = x.activeEpochIndex) (T := fun _ _ _ => False)
    (turns_getSession fun address => ⟨rfl, rfl⟩) ?_ fun _ _ _ hfalse => hfalse.elim
  rintro session m₁ x₁ hx₁
  refine ensures_turns (R := fun _ _ y => y.tainted = true ∧
    y.activeEpochIndex = x.activeEpochIndex) (T := fun _ _ _ => False)
    (turns_epochsAt fun e epochs => hx₁) ?_ fun _ _ _ hfalse => hfalse.elim
  rintro e m₂ x₂ hx₂
  cases e.pendingQuery with
  | none => exact Prog.ensures_pure (htainted m₂ x₂ hx₂)
  | some q =>
      refine ensures_turns (R := fun _ _ y => y.tainted = true ∧
        y.activeEpochIndex = x.activeEpochIndex) (T := fun _ _ _ => False)
        (turns_bind (turns_enqueue (turns_modifyEpoch fun _ _ => hx₂))) ?_
        fun _ _ _ hfalse => hfalse.elim
      rintro - m₃ x₃ hx₃
      exact Prog.ensures_yield rfl fun _ m₄ _ => Prog.ensures_pure (htainted m₄ x₃ hx₃)

/-- The input is in the queue, or nothing has changed. -/
theorem deals_advanceState {request : AdvanceStateRequest} (hv : InOrder server v) :
    Deals server (.advanceState request) (newAdvanceStateHandler fuel self peer request) m v := by
  refine ensures_onArrival (dealt_ignored hv) (Prog.ensures_tryCatch ?_)
  refine Prog.ensures_mono (Q := fun _ _ v' => Dealt server (.advanceState request) v v')
    (E := fun e _ v' => Lapsed server request v e v') ?_ (fun _ _ _ hq => hq) ?_
  · refine ensures_findSession (fun _ _ => Or.inl (.refl v)) fun ref x hput => ?_
    have hx : InOrder server (v.put ref x) := hput.symm ▸ hv
    rw [← hput]
    refine ensures_turns (turns_checkEpochOverflow (R := fun _ _ x' => x' = x)
      (E := fun _ _ x' => x' = x) (fun _ => rfl) fun _ => rfl) ?_ ?_
    · rintro - m' x' rfl
      refine ensures_withSessionLock (fun _ _ => Or.inl (.refl _)) ?_
      intro hopen reason
      exact ensures_advanceStateBody hx hopen reason
    · rintro e m' x' rfl
      exact Or.inl (.refl _)
  -- a failure is answered with an error, or taints the session
  intro e m' v' h
  have hafter : ∀ {acks : List (Rpc × Answer)}, (acks = [] ∨
      acks = [(.advanceState request, .finish .void)]) → ∀ {e v'}, Shaken server v acks e v' →
      ∀ {ref x y}, v'.session = some (ref, x) → y.tainted = true →
      y.activeEpochIndex = x.activeEpochIndex →
      Dealt server (.advanceState request) v (v'.put ref y) := by
    intro acks hacks e v' h ref x y hx htaint hindex
    have htainted := h.tainted hx htaint hindex
    rcases hacks with rfl | rfl
    · exact ⟨htainted.1, htainted.2, [], h.answers, fun _ _ hfirst => by cases hfirst⟩
    · exact dealt_answered htainted.1 htainted.2 (a := .void) (l := []) h.answers
  have htaint : ∀ {e m' v'}, Lapsed server request v e v' → ∀ ref status,
      (taintAndHandOver self ref status).Ensures (crew server).toSetting
        (fun _ _ v'' => Dealt server (.advanceState request) v v'') (fun _ _ _ => True) m' v' := by
    intro e m' v' h ref status
    refine ensures_taintAndHandOver fun m'' x y hx hy hindex => ?_
    rcases h with hspared | hshaken
    · exact hafter (Or.inl rfl) (hspared.shaken hv e) hx hy hindex
    · exact hafter (Or.inr rfl) hshaken hx hy hindex
  cases e with
  | finishErrorYieldNone status =>
      refine ensures_finishWithError rfl ?_
      rcases h with hspared | hshaken
      · exact hspared.dealt hv status
      · refine dealt_answered ((hshaken.order status rfl).answer _) (hshaken.later.answer _)
          (a := .void) (l := [.finishWithError status]) ?_
        show v'.answers ++ _ = _
        rw [hshaken.answers, List.append_assoc]
        rfl
  | taintSession ref status => exact htaint h ref status
  | stdException what =>
      refine Prog.ensures_bind (Prog.ensures_get fun s hs => Prog.ensures_pure ?_)
      cases hsession : s.session with
      | some p => exact htaint h p.1 _
      | none =>
          have hnone : v'.session = none := by
            rw [← show own s = v' from hs]
            simp [own, hsession]
          refine Prog.ensures_pure ?_
          rcases h with hspared | hshaken
          · exact ⟨hspared.order hv, hspared.later, [], by rw [hspared.answers, List.map_nil, List.append_nil],
              fun _ _ hfirst => by cases hfirst⟩
          · refine dealt_answered ⟨hshaken.waiting, hshaken.fresh, fun ref x hx => ?_⟩ hshaken.later
              (a := .void) (l := []) hshaken.answers
            rw [hnone] at hx
            cases hx

/-! ### StartSession -/

omit [Keccak] in
/-- A program that only makes calls leaves the session alone. -/
theorem turns_aboutSession {α : Type} {c : Handler α} {R : α → server.State → SessionType → Prop}
    {E : Exn → server.State → SessionType → Prop} (hc : Tame ref c) (hR : ∀ a m', R a m' x)
    (hE : ∀ e m', E e m' x) : Turns server ref v R E c m x := by
  refine turns_mono (turns_tame (I := fun _ => True) hc (fun _ _ _ _ _ _ _ => trivial) trivial) ?_ ?_
  · rintro a m' x' ⟨-, rfl⟩
    exact hR a m'
  · rintro e m' x' ⟨-, -, rfl⟩
    exact hE e m'

omit [Keccak] in
/-- A memory range is refused, or it is one that passed every check. -/
theorem turns_checkMemoryRangeConfig {name : String} {config : MemoryRangeConfig}
    {R : MemoryRangeDescriptionType → server.State → SessionType → Prop}
    {E : Exn → server.State → SessionType → Prop} (hR : ∀ range, RangeKept range → R range m x)
    (hE : ∀ e, E e m x) : Turns server ref v R E (checkMemoryRangeConfig name config) m x := by
  refine turns_ite (fun _ => turns_throw (hE _)) fun _ => ?_
  refine turns_ite (fun _ => turns_throw (hE _)) fun hpower => ?_
  refine turns_ite (fun _ => turns_throw (hE _)) fun haligned => turns_pure (hR _ ?_)
  exact ⟨⟨rfl, rfl, by simpa using hpower, not_not.1 haligned⟩, rfl⟩

omit [Keccak] in
theorem turns_checkRollupConfig {config : MachineConfig}
    {R : Unit → server.State → SessionType → Prop} {E : Exn → server.State → SessionType → Prop}
    (hR : ∀ ranges, RangeKept ranges.voucherHashes → RangeKept ranges.noticeHashes →
      R () m { x with memoryRange := ranges })
    (hE : ∀ e, E e m x) : Turns server ref v R E (checkRollupConfig ref config) m x := by
  unfold checkRollupConfig
  cases config.rollup with
  | none => exact turns_throw (hE _)
  | some rollup =>
      refine turns_ite (fun _ => turns_throw (hE _)) fun _ => ?_
      refine turns_bind (turns_checkMemoryRangeConfig (fun txBuffer _ => ?_) hE)
      refine turns_bind (turns_checkMemoryRangeConfig (fun rxBuffer _ => ?_) hE)
      refine turns_bind (turns_checkMemoryRangeConfig (fun inputMetadata _ => ?_) hE)
      refine turns_bind (turns_checkMemoryRangeConfig (fun voucherHashes hvouchers => ?_) hE)
      refine turns_bind (turns_checkMemoryRangeConfig (fun noticeHashes hnotices => ?_) hE)
      exact turns_modifySession (fun _ => rfl) (hR _ hvouchers hnotices)

/-- The first epoch of a session that has none yet. -/
theorem turns_startFirstEpoch {R : Unit → server.State → SessionType → Prop}
    {E : Exn → server.State → SessionType → Prop} (hempty : x.epochs = ∅)
    (hvouchers : RangeKept x.memoryRange.voucherHashes)
    (hnotices : RangeKept x.memoryRange.noticeHashes)
    (hR : ∀ m' x', SessionKept (Gathered server) x' → R () m' x') (hE : ∀ e m', E e m' x) :
    Turns server ref v R E (startFirstEpoch ref) m x := by
  refine turns_bind (turns_getSession fun address => ?_)
  refine turns_bind (turns_getRootHash (fun bytes m' hash _ _ => ?_) fun e m' _ => hE e m')
  exact turns_modifySession (fun _ => rfl) (hR m' _ (sessionKept_first hempty hash hvouchers hnotices))

/-- StartSession with the server checked in. -/
theorem ensures_startSessionChecked {request : StartSessionRequest} (hempty : x.epochs = ∅)
    (hQ : ∀ m' x' response, SessionKept (Gathered server) x' →
      Q () m' ((v.put ref x').answer (.startSession request) (.finish response)))
    (hE : ∀ e m' x', E e m' (v.put ref x')) :
    (startSessionChecked ref request).Ensures (crew server).toSetting Q E m (v.put ref x) := by
  have hfails : ∀ e m' x', (fun _ _ _ => True : Exn → server.State → SessionType → Prop) e m' x' →
      E e m' (v.put ref x') := fun e m' x' _ => hE e m' x'
  refine ensures_turns (turns_aboutSession (R := fun _ _ x' => x' = x) tame_checkServerVersion
    (fun _ _ => rfl) fun _ _ => trivial) ?_ hfails
  rintro - m₁ x₁ rfl
  refine ensures_turns (R := fun _ _ x' => x' = x₁) (turns_callOrFail (c := .machine _)
    (fun _ _ _ => rfl) fun _ _ _ _ => trivial) ?_ hfails
  rintro - m₂ x₂ rfl
  refine ensures_turns (R := fun _ _ x' => x' = x₂) (turns_callOrFail (c := .getInitialConfig)
    (fun _ _ _ => rfl) fun _ _ _ _ => trivial) ?_ hfails
  rintro config m₃ x₃ rfl
  refine ensures_turns (turns_aboutSession (R := fun _ _ x' => x' = x₃) (tame_checkHtifConfig _)
    (fun _ _ => rfl) fun _ _ => trivial) ?_ hfails
  rintro - m₄ x₄ rfl
  refine ensures_turns (turns_checkRollupConfig (R := fun _ _ x' => x'.epochs = ∅ ∧
    RangeKept x'.memoryRange.voucherHashes ∧ RangeKept x'.memoryRange.noticeHashes)
    (fun _ hvouchers hnotices => ⟨hempty, hvouchers, hnotices⟩) fun _ => trivial) ?_ hfails
  rintro - m₅ x₅ ⟨hempty₅, hvouchers, hnotices⟩
  refine ensures_turns (turns_aboutSession (R := fun _ _ x' => x' = x₅) tame_checkIsYielded
    (fun _ _ => rfl) fun _ _ => trivial) ?_ hfails
  rintro currentMcycle m₆ x₆ rfl
  refine ensures_turns (turns_modifySession (R := fun _ _ x' => x'.epochs = ∅ ∧
    RangeKept x'.memoryRange.voucherHashes ∧ RangeKept x'.memoryRange.noticeHashes)
    (fun _ => rfl) ⟨hempty₅, hvouchers, hnotices⟩) ?_ hfails
  rintro - m₇ x₇ ⟨hempty₇, hvouchers₇, hnotices₇⟩
  refine ensures_turns (turns_startFirstEpoch (R := fun _ _ x' => SessionKept (Gathered server) x')
    hempty₇ hvouchers₇ hnotices₇ (fun _ _ hx => hx) fun _ _ => trivial) ?_ hfails
  intro _ m₈ x₈ hx₈
  exact ensures_finish rfl (hQ m₈ x₈ _ hx₈)

omit [Keccak] in
/-- Spawning the server, or not. -/
theorem turns_spawnServer {R : Unit → server.State → SessionType → Prop}
    {E : Exn → server.State → SessionType → Prop} (hR : R () m x) (hE : ∀ e, E e m x) :
    Turns server ref v R E spawnServer m x := by
  refine turns_bind (turns_getContext fun s _ => ?_)
  cases s.spawnError with
  | some what => exact turns_throw (hE _)
  | none => exact turns_pure hR

omit [Keccak] in
theorem turns_checkRequest {session : SessionType} {request : StartSessionRequest}
    {R : Unit → server.State → SessionType → Prop} {E : Exn → server.State → SessionType → Prop}
    (hR : R () m x) (hE : ∀ e, E e m x) :
    Turns server ref v R E (checkRequest session request) m x := by
  -- one check after the other, each with a message of its own
  unfold checkRequest
  repeat refine turns_ite (fun _ => turns_throw (hE _)) fun _ => ?_
  exact turns_pure hR

/-- A generation has been given away. -/
def Own.aged (v : Own) : Own := { v with generation := v.generation + 1 }

omit [Keccak] in
/-- The session is installed, without an epoch and not locked. -/
theorem ensures_installSession {request : StartSessionRequest} {f : Nat → Handler Unit}
    (hf : ∀ x, x.epochs = ∅ → x.sessionLock = false →
      (f v.generation).Ensures (crew server).toSetting Q E m (v.aged.put v.generation x)) :
    (installSession request >>= f).Ensures (crew server).toSetting Q E m v := by
  refine Prog.ensures_bind (Prog.ensures_bind (Prog.ensures_get fun s hs => Prog.ensures_pure ?_))
  have hown : own s = v := hs
  have hgeneration : s.generation = v.generation := by rw [← hown]; rfl
  refine Prog.ensures_bind (Prog.ensures_modify
    (F := fun u : Own => u.aged.put u.generation (getProtoSession u.id request)) (fun _ => rfl) ?_)
  refine Prog.ensures_pure ?_
  rw [hgeneration]
  exact hf _ rfl rfl

/-- StartSession inside its outer try block: it is refused, or it ends with a session
    of a new generation. -/
theorem ensures_startSessionBody {request : StartSessionRequest} (hwaiting : v.waiting = none)
    (hrefused : ∀ status, Q () m (v.answer (.startSession request) (.finishWithError status)))
    (hQ : v.session = none → ∀ m' x' response, SessionKept (Gathered server) x' →
      Q () m' ((v.aged.put v.generation x').answer (.startSession request) (.finish response)))
    (hE : v.session = none → ∀ e m' x', E e m' (v.aged.put v.generation x')) :
    (startSessionBody self peer request).Ensures (crew server).toSetting Q E m v := by
  refine Prog.ensures_bind (Prog.ensures_get fun s hs => Prog.ensures_pure ?_)
  have hown : own s = v := hs
  refine ensures_ite (fun _ => ensures_finishWithError rfl (hrefused _)) fun _ => ?_
  refine ensures_ite (fun _ => ensures_finishWithError rfl (hrefused _)) fun hfree => ?_
  have hnone : v.session = none := by
    rw [← hown]
    simpa [own] using hfree
  refine ensures_installSession fun x hempty hopen => ensures_autoLock hopen ?_
  have hfails : ∀ e m' x', (fun _ _ _ => True : Exn → server.State → SessionType → Prop) e m' x' →
      ∀ x₁, (v.aged.put v.generation x').session = some (v.generation, x₁) →
        E e m' ((v.aged.put v.generation x').put v.generation (sessionLockField.set false x₁)) :=
    fun e m' x' _ x₁ _ => hE hnone e m' (sessionLockField.set false x₁)
  refine ensures_turns (R := fun _ _ x' => x'.epochs = ∅) (turns_modifySession (fun _ => rfl) hempty)
    ?_ hfails
  rintro - m₁ x₁ hempty₁
  refine ensures_turns (turns_getSession (R := fun _ _ x' => x' = x₁) fun _ => rfl) ?_ hfails
  rintro session m₂ x₂ rfl
  refine ensures_turns (R := fun _ _ x' => x' = x₂) (turns_checkRequest rfl fun _ => trivial) ?_ hfails
  rintro - m₃ x₃ rfl
  refine ensures_turns (turns_trigger (R := fun _ _ x' => x'.epochs = ∅) hwaiting
    (turns_spawnServer ⟨hempty₁, fun _ => trivial, fun _ => trivial⟩ fun _ => trivial)) ?_ hfails
  rintro - m₄ x₄ hempty₄
  -- a failure from here on shuts the server down, and is thrown again
  refine Prog.ensures_tryCatch (Prog.ensures_mono (ensures_startSessionChecked
    (E := fun _ _ v' => ∃ x', v' = v.aged.put v.generation x') hempty₄ ?_
    fun _ _ x' => ⟨x', rfl⟩) (fun _ _ _ hq => hq) ?_)
  · intro m₅ x₅ response hx₅ x₁ hx₁
    cases hx₁
    exact hQ hnone m₅ (sessionLockField.set false x₅) response (hx₅.congr rfl rfl rfl)
  · rintro e m₅ v₅ ⟨x₅, rfl⟩
    refine ensures_turns (turns_getSession (R := fun _ _ x' => x' = x₅) fun _ => rfl) ?_ hfails
    rintro session m₆ x₆ rfl
    exact ensures_ite (fun _ => Prog.ensures_throw (hfails e m₆ x₆ trivial)) fun _ =>
      Prog.ensures_halt

/-- There is a new session, or nothing has changed. -/
theorem deals_startSession {request : StartSessionRequest} (hv : InOrder server v) :
    Deals server (.startSession request) (newStartSessionHandler self peer request) m v := by
  refine ensures_onArrival (dealt_ignored hv) (Prog.ensures_tryCatch ?_)
  refine Prog.ensures_mono (ensures_startSessionBody (Q := fun _ _ v' =>
    Dealt server (.startSession request) v v') (E := fun _ _ v' => v.session = none ∧
      ∃ x', v' = v.aged.put v.generation x') hv.waiting ?_ ?_ ?_) (fun _ _ _ hq => hq) ?_
  · exact (Spared.refl v).dealt hv
  · intro _ m' x' response hbooks
    refine dealt_answered (l := []) ⟨hv.waiting, ?_, ?_⟩ ⟨Nat.le_succ _, ?_⟩ rfl
    · intro ref x hx
      cases hx
      exact Nat.lt_succ_self _
    · intro ref x hx _
      cases hx
      exact hbooks.congr rfl rfl rfl
    · intro ref x hx
      cases hx
      exact Or.inl (Nat.le_refl _)
  · exact fun hnone _ _ x' => ⟨hnone, x', rfl⟩
  -- the session is erased again
  rintro e m' v' ⟨hnone, x', rfl⟩
  have herased : ∀ status, (do
      eraseSession
      finishWithError (.startSession request) status : Handler Unit).Ensures (crew server).toSetting
        (fun _ _ v' => Dealt server (.startSession request) v v') (fun _ _ _ => True) m'
        (v.aged.put v.generation x') := by
    intro status
    refine Prog.ensures_bind (Prog.ensures_modify (F := fun u : Own => { u with session := none })
      (fun _ => rfl) (ensures_finishWithError rfl ?_))
    refine ⟨⟨hv.waiting, ?_, ?_⟩, ⟨Nat.le_succ _, ?_⟩, [_], rfl, ?_⟩
    · intro ref x hx
      cases hx
    · intro ref x hx
      cases hx
    · intro ref x hx
      cases hx
    · intro _ _ _ _
      exact ⟨by rw [hnone]; rfl, rfl⟩
  cases e with
  | finishErrorYieldNone status => exact herased status
  | taintSession ref status => exact herased _
  | stdException what => exact herased _

/-! ### Any request -/

/-- What becomes of a request, whichever it is. -/
theorem deals_request {rpc : Rpc} {h : HandlerId} (hrpc : rpc.aide = false)
    (hv : InOrder server v) : Deals server rpc (handlerOf fuel peer rpc h) m v := by
  cases rpc with
  | startSession request => exact deals_startSession hv
  | advanceState request => exact deals_advanceState hv
  | inspectState payload => exact deals_inspectState hv
  | finishEpoch request => exact deals_finishEpoch hv
  | deleteEpoch index => exact deals_deleteEpoch hv
  | endSession => exact deals_endSession hv
  | getSessionStatus => exact deals_getSessionStatus hv
  | getEpochStatus index => exact deals_getEpochStatus hv
  | checkIn address => cases hrpc
  | checkinDeadline a => cases hrpc

end Arrivals

end ServerManager
