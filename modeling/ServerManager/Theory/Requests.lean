import ServerManager.Theory.Dealings
import ServerManager.Theory.Response

/-!
# Each Kind of Request

What becomes of a request that only looks at its session or closes something in it,
from its arrival to its end. The handlers differ in where they can fail. One that
asks for a status, deletes an epoch or ends the session fails only before it has
written anything. FinishEpoch writes the finished epoch first and asks for its proofs
after that, and does not fail there because the books are in order. InspectState can
taint the session.

## Main definitions

* `Deals`: A handler deals with its request.
* `finishedSession`: The session after its active epoch was finished.
* `FinishOutcome`: What can become of FinishEpoch.

## Theorems

* `ensures_finishEpoch`: What becomes of FinishEpoch.
* `deals_finishEpoch`, `deals_endSession` and the others: One theorem for each kind
  of request.
-/

namespace ServerManager

open Coroutine

variable [Keccak]

section Requests

variable {server : Server} {v : Own} {m : server.State}

/-- What becomes of a request from its arrival to its end. -/
def Deals (server : Server) (rpc : Rpc) (c : Handler Unit) (m : server.State) (v : Own) : Prop :=
  c.Ensures (crew server).toSetting (fun _ _ v' => Dealt server rpc v v') (fun _ _ _ => True) m v

/-! ### Status -/

theorem deals_getSessionStatus {peer : String} (hv : InOrder server v) :
    Deals server .getSessionStatus (newGetSessionStatusHandler peer) m v := by
  refine ensures_request rfl hv fun ref x hx => ensures_withSessionLock (fun _ _ => .refl _) ?_
  intro hopen reason
  refine ensures_turns (turns_getSession (R := fun _ _ x' => x' = { x with
    sessionLock := true, sessionLockReason := reason }) (E := fun _ _ _ => False) fun _ => rfl) ?_
    fun _ _ _ hfalse => hfalse.elim
  rintro session m' x' rfl
  refine ensures_finish rfl (locked_dealt hx (fun htaint => ?_) ?_)
  · exact (hx.books ref _ rfl htaint).congr rfl rfl rfl
  · exact UInt64.le_refl x.activeEpochIndex

theorem deals_getEpochStatus {peer : String} {index : UInt64} (hv : InOrder server v) :
    Deals server (.getEpochStatus index) (newGetEpochStatusHandler peer index) m v := by
  refine ensures_request rfl hv fun ref x hx => ensures_withSessionLock (fun _ _ => .refl _) ?_
  intro hopen reason
  refine ensures_turns (turns_getSession (R := fun session _ x' => session.epochs = x.epochs ∧
    x' = { x with sessionLock := true, sessionLockReason := reason }) (E := fun _ _ _ => False)
    fun _ => ⟨rfl, rfl⟩) ?_ fun _ _ _ hfalse => hfalse.elim
  rintro session m' x' ⟨-, rfl⟩
  cases session.epochs.lookup index with
  | none => exact Prog.ensures_throw (locked_spared hopen reason)
  | some e =>
      refine ensures_finish rfl (locked_dealt hx (fun htaint => ?_) ?_)
      · exact (hx.books ref _ rfl htaint).congr rfl rfl rfl
      · exact UInt64.le_refl x.activeEpochIndex

/-! ### DeleteEpoch -/

/-- An epoch is deleted, or nothing is written. -/
theorem deals_deleteEpoch {peer : String} {index : UInt64} (hv : InOrder server v) :
    Deals server (.deleteEpoch index) (newDeleteEpochHandler peer index) m v := by
  refine ensures_request rfl hv fun ref x hx => ensures_withSessionLock (fun _ _ => .refl _) ?_
  intro hopen reason
  refine ensures_turns (turns_getSession (R := fun session _ x' =>
    session.activeEpochIndex = x.activeEpochIndex ∧
    x' = { x with sessionLock := true, sessionLockReason := reason }) (E := fun _ _ _ => False)
    fun _ => ⟨rfl, rfl⟩) ?_ fun _ _ _ hfalse => hfalse.elim
  rintro session m' x' ⟨hsame, rfl⟩
  cases session.epochs.lookup index with
  | none => exact Prog.ensures_throw (locked_spared hopen reason)
  | some e =>
      refine ensures_ite (fun _ => Prog.ensures_throw
        (locked_spared hopen reason)) fun hclosed => ?_
      have hne : x.activeEpochIndex ≠ index := fun heq => hclosed (Or.inr (hsame.trans heq))
      refine ensures_turns (R := fun _ _ x' => x' = { x with
        sessionLock := true, sessionLockReason := reason, epochs := x.epochs.erase index })
        (T := fun _ _ _ => False) (turns_modifySession (fun _ => rfl) rfl) ?_
        fun _ _ _ hfalse => hfalse.elim
      rintro - m₁ x₁ rfl
      refine ensures_finish rfl (locked_dealt hx (fun htaint => ?_) ?_)
      · have hbooks : SessionKept (Gathered server) x :=
          (hx.books ref _ rfl htaint).congr rfl rfl rfl
        exact (hbooks.erase hne).congr rfl rfl rfl
      · exact UInt64.le_refl x.activeEpochIndex

/-! ### FinishEpoch -/

omit [Keccak] in
theorem turns_store {ref : Nat} {x : SessionType} {directory : String}
    {R : Unit → server.State → SessionType → Prop} {E : Exn → server.State → SessionType → Prop}
    (hR : ∀ m', R () m' x) (hE : ∀ m' status, E (.finishErrorYieldNone status) m' x) :
    Turns server ref v R E (store ref directory) m x := by
  unfold store
  exact turns_callOrFail (c := .store directory) (fun _ m' _ => hR m') fun _ m' status _ => hE m' status

/-- The session after its active epoch `e` was finished and the next one has started. -/
def finishedSession (x : SessionType) (e : EpochType) : SessionType :=
  withNewEpoch (finishedEpoch e).1
    { x with epochs := x.epochs.insert x.activeEpochIndex (finishedEpoch e).1 }

/-- What can become of FinishEpoch: it is ignored, it is refused and nothing has
    changed, or the active epoch is finished and the next one has started. -/
inductive FinishOutcome (request : FinishEpochRequest) (v : Own) : Own → Prop
  | ignored : FinishOutcome request v v
  | refused {v' : Own} (status : Status) (h : Spared v v') :
      FinishOutcome request v (v'.answer (.finishEpoch request) (.finishWithError status))
  | closed {ref : Nat} {x y : SessionType} {e : EpochType} {response : FinishEpochResponse}
      (hx : v.put ref x = v) (htaint : x.tainted = false)
      (hindex : request.activeEpochIndex = x.activeEpochIndex)
      (hroom : x.activeEpochIndex ≠ 0xFFFFFFFFFFFFFFFF)
      (he : x.epochs.lookup x.activeEpochIndex = some e) (hpending : e.pendingInputs = [])
      (hcount : e.processedInputs.length = request.processedInputCountWithinEpoch.toNat)
      (hresponse : setProtoFinishEpochResponse (finishedEpoch e).1 = .ok response)
      (hy : y.unmarked = ((finishedSession x e).placed "").unmarked) :
      FinishOutcome request v
        ((v.put ref y).answer (.finishEpoch request) (.finish (.finishEpoch response)))

/-- FinishEpoch from the point where the epoch is closed. Every proof can be had,
    so nothing throws once the epoch is marked. -/
theorem ensures_closing {q : FinishEpochRequest} {y : SessionType} {n : Nat} {e : EpochType}
    {Q : Unit → server.State → Own → Prop} {E : Exn → server.State → Own → Prop}
    (hbooks : SessionKept (Gathered server) y)
    (he : y.epochs.lookup y.activeEpochIndex = some e)
    (hroom : y.activeEpochIndex ≠ 0xFFFFFFFFFFFFFFFF)
    (hQ : ∀ response, setProtoFinishEpochResponse (finishedEpoch e).1 = .ok response →
      Q () m ((v.put n (finishedSession y e)).answer (.finishEpoch q)
        (.finish (.finishEpoch response)))) :
    (do finishEpoch n y.activeEpochIndex
        startNewEpoch n y.activeEpochIndex
        let e ← getEpoch n y.activeEpochIndex
        let response ← ofExcept (setProtoFinishEpochResponse e)
        finish (.finishEpoch q) (.finishEpoch response)
      : Handler Unit).Ensures (crew server).toSetting Q E m (v.put n y) := by
  -- the books are needed only here: no proof of `finish_epoch` throws
  have hfinished := (hbooks.kept _ e he).finish
  generalize hf : (finishedEpoch e).1 = f at hfinished
  rcases hfinished.2.response with ⟨vouchersRoot, noticesRoot, -, -, hresponse⟩
  -- the epoch is marked, and no proof is missing
  refine ensures_turns (R := fun _ m' x' => m' = m ∧
    x' = { y with epochs := y.epochs.insert y.activeEpochIndex f }) (T := fun _ _ _ => False)
    ?_ ?_ fun _ _ _ hfalse => hfalse.elim
  · refine turns_bind (turns_getEpoch fun e₁ he₁ => turns_bind (turns_modifyEpoch fun e₂ he₂ => ?_))
    cases he.symm.trans he₁
    cases he.symm.trans he₂
    rw [hfinished.1]
    exact turns_pure ⟨rfl, by rw [hf]⟩
  rintro - m₁ x₁ ⟨rfl, rfl⟩
  have hfound : ({ y with epochs := y.epochs.insert y.activeEpochIndex f } :
      SessionType).epochs.lookup y.activeEpochIndex = some f := AList.lookup_insert _
  -- the next one starts
  refine ensures_turns (R := fun _ m' x' => m' = m₁ ∧
    x' = withNewEpoch f { y with epochs := y.epochs.insert y.activeEpochIndex f })
    (T := fun _ _ _ => False) ?_ ?_ fun _ _ _ hfalse => hfalse.elim
  · refine turns_bind (turns_getEpoch fun e₁ he₁ => turns_modifySession (fun _ => rfl) ?_)
    cases hfound.symm.trans he₁
    exact ⟨rfl, rfl⟩
  rintro - m₂ x₂ ⟨rfl, rfl⟩
  -- the response is built from the finished epoch, which the new entry did not replace
  have hlt := lt_next hroom
  have hsame : (withNewEpoch f { y with
      epochs := y.epochs.insert y.activeEpochIndex f }).epochs.lookup y.activeEpochIndex = some f := by
    rw [withNewEpoch, AList.lookup_insert_ne (UInt64.ne_of_lt hlt)]
    exact hfound
  refine ensures_turns (R := fun e₁ m' x' => e₁ = f ∧ m' = m₂ ∧
    x' = withNewEpoch f { y with epochs := y.epochs.insert y.activeEpochIndex f })
    (T := fun _ _ _ => False) (turns_getEpoch fun e₁ he₁ => ?_) ?_ fun _ _ _ hfalse => hfalse.elim
  · cases hsame.symm.trans he₁
    exact ⟨rfl, rfl, rfl⟩
  rintro e₁ m₃ x₃ ⟨rfl, rfl, rfl⟩
  rw [hresponse]
  subst hf
  exact ensures_finish rfl (hQ _ hresponse)

/-- What becomes of FinishEpoch when the books are in order. -/
theorem ensures_finishEpoch {peer : String} {request : FinishEpochRequest}
    (hv : InOrder server v) : (newFinishEpochHandler peer request).Ensures (crew server).toSetting
      (fun _ _ v' => FinishOutcome request v v') (fun _ _ _ => True) m v := by
  refine ensures_answered rfl .ignored (fun _ status h => .refused status h) fun ref x hput => ?_
  have hx : InOrder server (v.put ref x) := hput.symm ▸ hv
  refine ensures_turns (turns_checkEpochOverflow (R := fun _ m' x' => m' = m ∧ x' = x ∧
    x.activeEpochIndex ≠ 0xFFFFFFFFFFFFFFFF) (E := fun _ _ x' => x' = x)
    (fun hroom => ⟨rfl, rfl, hroom⟩) fun _ => rfl) ?_ ?_
  swap
  · rintro e m' x' rfl
    exact .refl _
  rintro - m' x' ⟨rfl, rfl, hroom⟩
  refine ensures_withSessionLock (fun _ _ => .refl _) ?_
  intro hopen reason
  refine ensures_turns (turns_checkTainted (R := fun _ m₁ x₁ => m₁ = m' ∧ x'.tainted = false ∧
    x₁ = x'.lockedFor reason)
    (E := fun _ _ x₁ => x₁ = x'.lockedFor reason)
    (fun htaint => ⟨rfl, htaint, rfl⟩) fun _ => rfl) ?_ ?_
  swap
  · rintro e m₁ x₁ rfl
    exact locked_spared hopen reason
  rintro - m₁ x₁ ⟨rfl, htaint, rfl⟩
  -- from here on the session is locked, and it was not tainted
  have hbooks : SessionKept (Gathered server) x' := (hx.books ref _ rfl htaint).congr rfl rfl rfl
  refine ensures_turns (turns_getSession (R := fun session m₂ x₂ => m₂ = m₁ ∧
    session.epochs = x'.epochs ∧ x₂ = x'.lockedFor reason)
    (E := fun _ _ _ => False) fun _ => ⟨rfl, rfl, rfl⟩) ?_ fun _ _ _ hfalse => hfalse.elim
  rintro session m₂ x₂ ⟨rfl, hsame, rfl⟩
  dsimp only
  cases he : session.epochs.lookup request.activeEpochIndex with
  | none => exact Prog.ensures_throw (locked_spared hopen reason)
  | some e =>
      refine ensures_ite (fun _ => Prog.ensures_throw (locked_spared hopen reason)) fun hstate => ?_
      refine ensures_ite (fun _ => Prog.ensures_throw (locked_spared hopen reason)) fun hempty => ?_
      refine ensures_ite (fun _ => Prog.ensures_throw (locked_spared hopen reason)) fun hcount => ?_
      rw [hsame] at he
      -- only the active epoch is not closed
      have hindex : request.activeEpochIndex = x'.activeEpochIndex := by
        by_contra hne
        have hclosed := (hbooks.closed _ e he hne).2.1
        rw [not_not.1 hstate] at hclosed
        cases hclosed
      have hpending : e.pendingInputs = [] := by simpa using hempty
      have hclosing := fun m₃ => ensures_closing (m := m₃) (v := v) (n := ref) (q := request)
        (y := x'.lockedFor reason) (Q := fun _ _ v' => ∀ x₁, v'.session = some (ref, x₁) →
          FinishOutcome request (v.put ref x') (v'.put ref (sessionLockField.set false x₁)))
        (E := fun _ _ v' => ∀ x₁, v'.session = some (ref, x₁) →
          Spared (v.put ref x') (v'.put ref (sessionLockField.set false x₁)))
        (hbooks.congr rfl rfl rfl) (hindex ▸ he) hroom fun response hresponse x₁ hx₁ => by
          cases hx₁
          refine .closed (x := x') (e := e) rfl htaint hindex hroom (hindex ▸ he) hpending
            (not_not.1 hcount) hresponse ?_
          simp [SessionType.unmarked, SessionType.placed, finishedSession, withNewEpoch,
            sessionLockField, hopen]
      -- the machine is stored before anything is written, so its failure spares the session
      rw [← hindex] at hclosing
      refine ensures_ite (fun _ => ?_) fun _ => hclosing m₂
      refine ensures_turns (turns_store (R := fun _ _ x₃ => x₃ = x'.lockedFor reason)
        (E := fun _ _ x₃ => x₃ = x'.lockedFor reason) (fun _ => rfl) fun _ _ => rfl) ?_ ?_
      · rintro - m₃ x₃ rfl
        exact hclosing m₃
      · rintro e' m₃ x₃ rfl
        exact locked_spared hopen reason

theorem FinishOutcome.dealt {request : FinishEpochRequest} {v' : Own} (hv : InOrder server v)
    (h : FinishOutcome request v v') : Dealt server (.finishEpoch request) v v' := by
  cases h with
  | ignored => exact dealt_ignored hv
  | refused status h => exact h.dealt hv status
  | @closed ref x y e response hx htaint hindex hroom he hpending hcount hresponse hy =>
      have hput : InOrder server (v.put ref x) := hx.symm ▸ hv
      have hbooks : SessionKept (Gathered server) x :=
        (hput.books ref _ rfl htaint).congr rfl rfl rfl
      have hnext : SessionKept (Gathered server) (finishedSession x e) :=
        hbooks.newEpoch he hpending hroom
      rcases unmarked_fields hy with ⟨-, hepochs, hactive, hranges⟩
      have hle : x.activeEpochIndex ≤ y.activeEpochIndex := by
        rw [hactive]
        exact UInt64.le_of_lt (lt_next hroom)
      refine dealt_answered (l := []) ?_ ?_ rfl
      · exact (inOrder_put hput fun _ => hnext.congr hepochs hactive hranges).answer _
      · have hlater : Later (v.put ref x) (v.put ref y) := later_put hle
        rw [hx] at hlater
        exact hlater.answer _

/-- The epoch is finished and the next one has started, or nothing has changed. -/
theorem deals_finishEpoch {peer : String} {request : FinishEpochRequest} (hv : InOrder server v) :
    Deals server (.finishEpoch request) (newFinishEpochHandler peer request) m v :=
  Prog.ensures_mono (ensures_finishEpoch hv) (fun _ _ _ h => h.dealt hv) fun _ _ _ _ => trivial

/-! ### EndSession -/

omit [Keccak] in
theorem turns_shutdown {ref : Nat} {x : SessionType}
    {R : Unit → server.State → SessionType → Prop} {E : Exn → server.State → SessionType → Prop}
    (hR : ∀ m', R () m' x) (hE : ∀ m' status, E (.finishErrorYieldNone status) m' x) :
    Turns server ref v R E (shutdownServer ref) m x := by
  unfold shutdownServer
  exact turns_callOrFail (c := .shutdown) (fun _ m' _ => hR m') fun _ m' status _ => hE m' status

omit [Keccak] in
/-- EndSession once nothing is left to process: it fails before the session is
    erased, or there is no session afterwards. -/
theorem ensures_ending {n : Nat} {y : SessionType} {Q : Unit → server.State → Own → Prop}
    {E : Exn → server.State → Own → Prop} (hQ : ∀ m' v', v'.session = none → Q () m' v')
    (hE : ∀ e m', E e m' (v.put n y)) :
    (do let session ← getSession n
        if session.processingLock then
          throwFinishError .internal "session is processing inputs!"
        shutdownServer n
        let session ← getSession n
        if session.tainted then
          Prog.modify (S := handlerSignature) fun hctx =>
            { hctx with terminated := hctx.terminated ++ [n] }
        Prog.modify (S := handlerSignature) fun hctx => { hctx with session := none }
        finish .endSession .void
      : Handler Unit).Ensures (crew server).toSetting Q E m (v.put n y) := by
  refine ensures_turns (turns_getSession (R := fun _ _ x' => x' = y) (E := fun _ _ _ => False)
    fun _ => rfl) ?_ fun _ _ _ hfalse => hfalse.elim
  rintro session m₁ x₁ rfl
  refine ensures_ite (fun _ => Prog.ensures_throw (hE _ _)) fun _ => ?_
  refine ensures_turns (turns_shutdown (R := fun _ _ x' => x' = x₁) (E := fun _ _ x' => x' = x₁)
    (fun _ => rfl) fun _ _ => rfl) ?_ ?_
  swap
  · rintro e m₂ x₂ rfl
    exact hE _ _
  rintro - m₂ x₂ rfl
  refine ensures_turns (turns_getSession (R := fun _ _ x' => x' = x₂) (E := fun _ _ _ => False)
    fun _ => rfl) ?_ fun _ _ _ hfalse => hfalse.elim
  rintro session' m₃ x₃ rfl
  -- whether the process was terminated does not show
  have herase : (do
      Prog.modify (S := handlerSignature) fun hctx => { hctx with session := none }
      finish .endSession .void : Handler Unit).Ensures (crew server).toSetting Q E m₃
        (v.put n x₃) := by
    refine Prog.ensures_bind (Prog.ensures_modify (F := fun v => { v with session := none })
      (fun _ => rfl) ?_)
    exact ensures_finish rfl (hQ _ _ rfl)
  refine ensures_ite (fun _ => ?_) fun _ => herase
  exact Prog.ensures_bind (Prog.ensures_modify (F := id) (fun _ => rfl) herase)

/-- The session is gone, or nothing has changed. -/
theorem deals_endSession {peer : String} (hv : InOrder server v) :
    Deals server .endSession (newEndSessionHandler peer) m v := by
  refine ensures_request rfl hv fun ref x hx => ensures_withSessionLock (fun _ _ => .refl _) ?_
  intro hopen reason
  have hending := fun m₁ : server.State => ensures_ending (m := m₁) (v := v) (n := ref)
    (y := x.lockedFor reason) (Q := fun _ _ v' => ∀ x₁, v'.session = some (ref, x₁) →
      Dealt server .endSession (v.put ref x) (v'.put ref (sessionLockField.set false x₁)))
    (E := fun _ _ v' => ∀ x₁, v'.session = some (ref, x₁) →
      Spared (v.put ref x) (v'.put ref (sessionLockField.set false x₁)))
    (fun _ v' hnone x₁ hx₁ => by rw [hnone] at hx₁; cases hx₁) fun _ _ => locked_spared hopen reason
  refine ensures_turns (turns_getSession (R := fun session _ x' =>
    session.tainted = x.tainted ∧ session.activeEpochIndex = x.activeEpochIndex ∧
    x' = x.lockedFor reason) (E := fun _ _ _ => False)
    fun _ => ⟨rfl, rfl, rfl⟩) ?_ fun _ _ _ hfalse => hfalse.elim
  rintro session m₁ x₁ ⟨htainted, hindex, rfl⟩
  refine ensures_ite (fun hclean => ?_) fun _ => hending m₁
  have htaint : x.tainted = false := by simpa [htainted] using hclean
  rcases (hx.books ref _ rfl htaint).active with ⟨e, he, -⟩
  -- the active epoch is there, so looking for it does not make one
  refine ensures_turns (R := fun _ _ x₂ => x₂ = x.lockedFor reason) (T := fun _ _ _ => False)
    (turns_bind (turns_getSession fun address => ?_)) ?_ fun _ _ _ hfalse => hfalse.elim
  · have hfound : ((x.lockedFor reason).placed address).epochs.lookup session.activeEpochIndex =
        some e := hindex ▸ he
    rw [hfound]
    exact turns_pure rfl
  · rintro e₁ m₂ x₂ rfl
    refine ensures_ite (fun _ => Prog.ensures_throw (locked_spared hopen reason)) fun _ => ?_
    refine ensures_ite (fun _ => Prog.ensures_throw (locked_spared hopen reason)) fun _ => ?_
    exact hending m₂

/-! ### Requests that can taint the session -/

/-- What an exception leaves behind after the answers `acks`: the books do not
    matter if the session is going to be tainted for it. -/
structure Shaken (server : Server) (v : Own) (acks : List (Rpc × Answer)) (e : Exn) (v' : Own) :
    Prop where
  waiting : v'.waiting = none
  fresh : ∀ ref x, v'.session = some (ref, x) → ref < v'.generation
  later : Later v v'
  answers : v'.answers = v.answers ++ acks
  order : ∀ status, e = .finishErrorYieldNone status → InOrder server v'

section Shaken

variable {acks : List (Rpc × Answer)} {e : Exn} {v' : Own}

/-- What a request spared when it threw. -/
theorem Spared.shaken (h : Spared v v') (hv : InOrder server v) (e : Exn) :
    Shaken server v [] e v' := by
  have horder := h.order hv
  exact ⟨horder.waiting, horder.fresh, h.later, by rw [h.answers, List.append_nil],
    fun _ _ => horder⟩

/-- A session that is replaced by one that is tainted. -/
theorem Shaken.tainted (h : Shaken server v acks e v') {ref : Nat} {x y : SessionType}
    (hx : v'.session = some (ref, x)) (htaint : y.tainted = true)
    (hindex : y.activeEpochIndex = x.activeEpochIndex) :
    InOrder server (v'.put ref y) ∧ Later v (v'.put ref y) := by
  refine ⟨⟨h.waiting, fun ref' y' hy' => ?_, fun ref' y' hy' hclean => ?_⟩,
    h.later.generation, fun ref' y' hy' => ?_⟩
  · cases hy'
    exact h.fresh ref x hx
  · cases hy'
    exact absurd (htaint.symm.trans hclean) (by simp)
  · cases hy'
    have hsame : (y.placed "").activeEpochIndex = x.activeEpochIndex := hindex
    rw [hsame]
    exact h.later.session ref x hx

/-- An exception in the locked session. -/
theorem locked_shaken {ref : Nat} {x y : SessionType} (hv : InOrder server (v.put ref x))
    (hindex : y.activeEpochIndex = x.activeEpochIndex)
    (hbooks : ∀ status, e = .finishErrorYieldNone status → y.tainted = false →
      SessionKept (Gathered server) y) (x' : SessionType)
    (hx' : (v.put ref y).session = some (ref, x')) :
    Shaken server (v.put ref x) [] e ((v.put ref y).put ref (sessionLockField.set false x')) := by
  cases hx'
  refine ⟨hv.waiting, fun ref' y' hy' => ?_, ?_, by simp [Own.put], fun status he => ?_⟩
  · cases hy'
    exact hv.fresh ref _ rfl
  · exact later_put (y := sessionLockField.set false (y.placed ""))
      (UInt64.le_of_eq hindex.symm)
  · exact inOrder_put (y := sessionLockField.set false (y.placed "")) hv fun htaint =>
      (hbooks status he htaint).congr rfl rfl rfl

end Shaken

/-! ### InspectState -/

section Inspect

variable {ref : Nat} {fuel : Nat} {self : HandlerId} {index : UInt64} {payload : Bytes}
  {y : SessionType} {Q : Unit → server.State → Own → Prop} {E : Exn → server.State → Own → Prop}

/-- A query that has the machine for itself. -/
theorem ensures_inspectStateBody (hwaiting : v.waiting = none)
    (hy : y.tainted = false → SessionKept (Gathered server) y) (hindex : y.activeEpochIndex = index)
    (hQ : ∀ m' y' response, SessionKept (Gathered server) y' → y'.activeEpochIndex = index →
      Q () m' ((v.put ref y').answer (.inspectState payload) (.finish response)))
    (hE : ∀ e m' y', y'.activeEpochIndex = index → (∀ status, e = .finishErrorYieldNone status →
      y'.tainted = false → SessionKept (Gathered server) y') → E e m' (v.put ref y')) :
    (inspectStateBody fuel self ref index payload).Ensures (crew server).toSetting Q E m
      (v.put ref y) := by
  refine ensures_turns (turns_checkTainted (R := fun _ _ y' => y' = y ∧ y.tainted = false)
    (E := fun _ _ y' => y' = y) (fun htaint => ⟨rfl, htaint⟩) fun _ => rfl) ?_ ?_
  swap
  · rintro e m' y' rfl
    exact hE _ _ _ hindex fun _ _ => hy
  rintro - m₁ y₁ ⟨rfl, htaint⟩
  refine ensures_turns (turns_processPendingQuery hwaiting (hy htaint) hindex) ?_ ?_
  swap
  · rintro e m' y' ⟨hindex', hbooks⟩
    exact hE _ _ _ hindex' fun status he _ => hbooks status he
  rintro - m₂ y₂ ⟨hbooks, hindex'⟩
  refine ensures_turns (R := fun _ _ y' => SessionKept (Gathered server) y' ∧
    y'.activeEpochIndex = index) (T := fun _ _ _ => False)
    (turns_getSession fun address => ⟨hbooks, hindex'⟩) ?_ fun _ _ _ hfalse => hfalse.elim
  rintro session m₃ y₃ ⟨hbooks, hindex'⟩
  refine ensures_turns (R := fun _ _ y' => SessionKept (Gathered server) y' ∧
    y'.activeEpochIndex = index) (T := fun _ _ _ => False)
    (turns_getQuery fun q => ⟨hbooks, hindex'⟩) ?_ fun _ _ _ hfalse => hfalse.elim
  rintro q m₄ y₄ ⟨hbooks, rfl⟩
  refine ensures_turns (R := fun _ _ y' => SessionKept (Gathered server) y' ∧
    y'.activeEpochIndex = y₄.activeEpochIndex) (T := fun _ _ _ => False)
    (turns_modifyEpoch fun e he => ⟨?_, rfl⟩) ?_ fun _ _ _ hfalse => hfalse.elim
  · exact hbooks.setActive he ((hbooks.kept _ e he).congr rfl rfl rfl rfl) rfl rfl
      fun hempty => ⟨hempty, rfl⟩
  rintro - m₅ y₅ ⟨hbooks, hindex'⟩
  exact ensures_finish rfl (hQ _ _ _ hbooks hindex')

omit [Keccak] in
/-- Resuming a coroutine later does not show. -/
theorem ensures_autoResume {coroutine : Option HandlerId} (hQ : Q () m v) :
    (autoResume coroutine).Ensures (crew server).toSetting Q E m v := by
  cases coroutine with
  | none => exact Prog.ensures_pure hQ
  | some h => exact Prog.ensures_modify (F := id) (fun _ => rfl) hQ

/-- A query in the locked session. -/
theorem ensures_inspectStateLocked {x : SessionType} (hwaiting : v.waiting = none)
    (hx : x.tainted = false → SessionKept (Gathered server) x)
    (hQ : ∀ m' y' response, SessionKept (Gathered server) y' →
      y'.activeEpochIndex = x.activeEpochIndex →
        Q () m' ((v.put ref y').answer (.inspectState payload) (.finish response)))
    (hE : ∀ e m' y', y'.activeEpochIndex = x.activeEpochIndex →
      (∀ status, e = .finishErrorYieldNone status →
        y'.tainted = false → SessionKept (Gathered server) y') → E e m' (v.put ref y')) :
    (inspectStateLocked fuel self ref payload).Ensures (crew server).toSetting Q E m
      (v.put ref x) := by
  refine ensures_turns (turns_checkTainted (R := fun _ _ y' => y' = x ∧ x.tainted = false)
    (E := fun _ _ y' => y' = x) (fun htaint => ⟨rfl, htaint⟩) fun _ => rfl) ?_ ?_
  swap
  · rintro e m' y' rfl
    exact hE _ _ _ rfl fun _ _ => hx
  rintro - m₁ y₁ ⟨rfl, htaint⟩
  have hbooks := hx htaint
  refine ensures_turns (turns_getSession (R := fun session _ y' => y' = y₁ ∧
    session.activeEpochIndex = y₁.activeEpochIndex ∧ session.epochs = y₁.epochs)
    (E := fun _ _ _ => False) fun _ => ⟨rfl, rfl, rfl⟩) ?_ fun _ _ _ hfalse => hfalse.elim
  rintro session m₂ y₂ ⟨rfl, hindex, hepochs⟩
  dsimp only
  rw [hindex, hepochs]
  cases he : y₂.epochs.lookup y₂.activeEpochIndex with
  | none => exact Prog.ensures_throw (hE _ _ _ rfl fun _ _ => hx)
  | some e =>
      refine ensures_ite (fun _ => Prog.ensures_throw (hE _ _ _ rfl fun _ _ => hx)) fun _ => ?_
      -- the query is put in the epoch
      refine ensures_turns (R := fun _ _ y' => SessionKept (Gathered server) y' ∧
        y'.activeEpochIndex = y₂.activeEpochIndex) (T := fun _ _ _ => False)
        (turns_modifyEpoch fun e he => ⟨?_, rfl⟩) ?_ fun _ _ _ hfalse => hfalse.elim
      · exact hbooks.setActive he ((hbooks.kept _ e he).congr rfl rfl rfl rfl) rfl rfl
          fun hempty => ⟨hempty, rfl⟩
      rintro - m₃ y₃ ⟨hbooks₃, hindex₃⟩
      refine ensures_ite (fun _ => ?_) fun _ => ?_
      · refine Prog.ensures_andFinally (Prog.ensures_mono
          (ensures_inspectStateBody (E := E) hwaiting (fun _ => hbooks₃) hindex₃ hQ hE) ?_ ?_)
        · exact fun _ _ _ hq => ensures_autoResume hq
        · exact fun _ _ _ he => ensures_autoResume he
      · -- it waits until the inputs before it are done
        refine ensures_turns (R := fun _ _ y' => SessionKept (Gathered server) y' ∧
          y'.activeEpochIndex = y₂.activeEpochIndex) (T := fun _ _ _ => False)
          (turns_modifyQuery hbooks₃ hindex₃ fun _ h₁ h₂ => ⟨h₁, h₂⟩) ?_
          fun _ _ _ hfalse => hfalse.elim
        rintro - m₄ y₄ ⟨hbooks₄, hindex₄⟩
        refine Prog.ensures_yield rfl fun _ m₅ _ => ?_
        refine ensures_turns (R := fun _ _ y' => SessionKept (Gathered server) y' ∧
          y'.activeEpochIndex = y₂.activeEpochIndex) (T := fun _ _ _ => False)
          (turns_getQuery fun q => ⟨hbooks₄, hindex₄⟩) ?_ fun _ _ _ hfalse => hfalse.elim
        rintro q m₆ y₆ ⟨hbooks₆, hindex₆⟩
        refine Prog.ensures_andFinally (Prog.ensures_mono
          (ensures_inspectStateBody (E := E) hwaiting (fun _ => hbooks₆) hindex₆ hQ hE) ?_ ?_)
        · exact fun _ _ _ hq => ensures_autoResume hq
        · exact fun _ _ _ he => ensures_autoResume he

/-- A query that is answered with an error. -/
theorem dealt_failedQuery {v' : Own} (horder : InOrder server v') (hlater : Later v v')
    (hanswers : v'.answers = v.answers) (status : Status) :
    Dealt server (.inspectState payload) v
      (v'.answer (.inspectState payload) (.finishWithError status)) := by
  refine ⟨horder.answer _, hlater.answer _, [.finishWithError status], ?_, ?_⟩
  · show v'.answers ++ _ = _
    rw [hanswers]
    rfl
  · exact fun _ _ _ hne => absurd rfl (hne payload)

theorem deals_inspectState {peer : String} (hv : InOrder server v) :
    Deals server (.inspectState payload) (newInspectStateHandler fuel self peer payload) m v := by
  refine ensures_onArrival (dealt_ignored hv) (Prog.ensures_tryCatch ?_)
  refine Prog.ensures_mono (Q := fun _ _ v' => Dealt server (.inspectState payload) v v')
    (E := fun e _ v' => Shaken server v [] e v') ?_ (fun _ _ _ hq => hq) ?_
  · refine ensures_findSession (fun _ _ => (Spared.refl v).shaken hv _) fun ref x hput => ?_
    have hx : InOrder server (v.put ref x) := hput.symm ▸ hv
    rw [← hput]
    refine ensures_withSessionLock (fun _ _ => (Spared.refl _).shaken hx _) ?_
    intro hopen reason
    refine ensures_inspectStateLocked hv.waiting
      (fun htaint => (hx.books ref _ rfl htaint).congr rfl rfl rfl) ?_ ?_
    · intro m' y' response hbooks hindex
      exact locked_dealt hx (fun _ => hbooks) (UInt64.le_of_eq hindex.symm)
    · intro e m' y' hindex hbooks
      exact locked_shaken hx hindex hbooks
  -- an exception that is not an error for the client taints the session
  intro e m' v' h
  have hanswers : v'.answers = v.answers := by rw [h.answers, List.append_nil]
  cases e with
  | finishErrorYieldNone status =>
      exact ensures_finishWithError rfl (dealt_failedQuery (h.order status rfl) h.later hanswers _)
  | taintSession ref status =>
      refine Prog.ensures_bind (ensures_modifySession (fun _ _ => rfl) fun x hx => ?_)
      have htainted := h.tainted (y := { x with tainted := true, taintStatus := status }) hx rfl rfl
      exact ensures_finishWithError rfl (dealt_failedQuery htainted.1 htainted.2 hanswers _)
  | stdException what =>
      refine Prog.ensures_bind (Prog.ensures_get fun s hs => Prog.ensures_pure ?_)
      cases hsession : s.session with
      | none =>
          have hnone : v'.session = none := by
            rw [← show own s = v' from hs]
            simp [own, hsession]
          have horder : InOrder server v' := by
            refine ⟨h.waiting, h.fresh, fun ref x hx => ?_⟩
            rw [hnone] at hx
            cases hx
          exact ensures_finishWithError rfl (dealt_failedQuery horder h.later hanswers _)
      | some p =>
          refine Prog.ensures_bind (ensures_modifySession (fun _ _ => rfl) fun x hx => ?_)
          have htainted := h.tainted
            (y := { x with tainted := true, taintStatus := unexpectedException what }) hx rfl rfl
          exact ensures_finishWithError rfl (dealt_failedQuery htainted.1 htainted.2 hanswers _)

end Inspect

end Requests

end ServerManager
