import ServerManager.Theory.Integrity

/-!
# Requests That Fail

A request whose first answer is an error has left the sessions as they were. For
most requests this is because they check before they write; FinishEpoch writes
before it asks for its proofs, and is safe because the books are in order, so that
none of the proofs can fail; StartSession installs its session first, and erases it.
InspectState is not among them: it taints a session whose machine fails, and then
answers with an error.

What a check-in or a refused request leaves in a session all the same is the address
of its server and the reason why it was locked last. Neither has to do with the
state of the computation.

## Main definitions

* `clientView`: The sessions and the waits, without address and reason.
* `firstAnswer`: The first answer to a request.

## Theorems

* `handled_request`: What one request leaves after any others.
* `refused_unchanged`: An error as the first answer means that nothing has changed.
* `finish_all_or_nothing`: FinishEpoch finishes the epoch, or has changed nothing.
-/

namespace ServerManager

open Coroutine

variable [Keccak]

/-- The sessions without the address of the server and the reason of the last lock,
    and the waits for a check-in. -/
def clientView (s : HandlerContext) :
    Option (Nat × SessionType) × Option CheckinContext :=
  (s.session.map fun p => (p.1, { p.2 with serverAddress := "", sessionLockReason := "" }),
    s.waitingCheckin)

/-- What was answered to the requests of clients so far. -/
def clientAnswers (s : HandlerContext) : List (Rpc × Answer) := s.sent.filter fun a => !a.1.aide

/-- The first answer that was given since `w`. -/
def firstAnswer (w w' : Manager) : Option Answer :=
  ((clientAnswers w'.shared).drop (clientAnswers w.shared).length).head?.map Prod.snd

/-- The event is not a request of a client. -/
def NoRequest : Event → Prop
  | .arrive rpc _ _ _ => rpc.aide = true
  | _ => True

instance (e : Event) : Decidable (NoRequest e) :=
  match e with
  | .arrive rpc _ _ _ => inferInstanceAs (Decidable (rpc.aide = true))
  | .complete .. | .dequeue .. | .fire _ | .alarm .. | .completeStale _ => isTrue trivial

/-- A server that can answer anything. -/
def anyServer : Server where
  State := Unit
  Answers _ _ _ _ := True

omit [Keccak] in
theorem servedBy_anyServer (w : Manager) (e : Event) : ServedBy anyServer w e () () := by
  cases e with
  | complete h reply env =>
      intro p hp
      cases p with
      | mk tag op k =>
          cases htag : tag.aide with
          | true => exact rfl
          | false =>
              show anyServer.Replies op () (reply op) ()
              cases op with
              | call c => exact Or.inl trivial
              | _ => exact rfl
  | _ => exact rfl

omit [Keccak] in
/-- What has not changed in `own` has not changed for a client. -/
theorem clientView_of_unchanged {s s' : HandlerContext} (h : Unchanged (own s) (own s'))
    (hwaiting : (own s).waiting = none) : clientView s' = clientView s := by
  have hnone : s.waitingCheckin = none := by simpa [own] using hwaiting
  have hnone' : s'.waitingCheckin = none := by simpa [own] using h.waiting.trans hwaiting
  -- the address is cleared on both sides, and so is the reason
  have hview : ∀ t : HandlerContext, (clientView t).1 =
      (own t).session.map fun p => (p.1, p.2.unmarked) := by
    intro t
    cases ht : t.session with
    | none => simp [clientView, own, ht]
    | some p => simp [clientView, own, ht, SessionType.placed, SessionType.unmarked]
  refine Prod.ext ?_ (hnone'.trans hnone.symm)
  rw [hview, hview]
  exact h.session

section Refused

variable {hctx : HandlerContext} {w w₁ w' : Manager}

/-- What a request leaves, when all those before it have been dealt with, is what its
    handler ensures when the books are in order. -/
theorem handled_request {D : Own → Prop} (hblank : Blank hctx) (hwaiting : hctx.waitingCheckin = none)
    (hrun : Runs step (fun w e _ => OneByOne w e) (idle hctx) w) (hrest : AtRest w)
    {rpc : Rpc} {peer : String} {fuel : Nat} {env : Environment} (hclient : rpc.aide = false)
    (harrive : step w (.arrive rpc peer fuel env) = some w₁)
    (hwork : Runs step (fun _ e _ => NoRequest e) w₁ w') (hrest' : AtRest w')
    (hrunning : w'.halted = none)
    (hensures : InOrder anyServer (own w.shared) → (handlerOf fuel peer rpc w.next).Ensures
      (crew anyServer).toSetting (fun _ _ v => D v) (fun _ _ _ => True) () (own w.shared)) :
    InOrder anyServer (own w.shared) ∧ D (own w'.shared) := by
  have hdealing : Dealing anyServer (own hctx) w () :=
    runs_invariant (I := fun w => Dealing anyServer (own hctx) w ()) hrun
      (dealing_idle hblank hwaiting) fun w e _ h hstep hone =>
        h.next hstep hone (servedBy_anyServer w e)
  -- at rest the books are in order, so the handler of the next request starts from them
  have horder := (hdealing.atRest hrest (step_running harrive)).1
  have hhandling : Handling anyServer D w' () :=
    runs_invariant (I := fun w' => Handling anyServer D w' ()) hwork
      (handling_arrive hdealing hrest hclient (hensures horder) harrive) fun w e _ h hstep hno =>
        h.next hstep (servedBy_anyServer w e) fun rpc peer fuel env he => by subst he; exact hno
  exact ⟨horder, hhandling.atRest hrest' hrunning⟩

/-- A request that comes when all those before it have been dealt with, and whose
    first answer is an error, has changed nothing by the time it has been dealt with:
    not the sessions, with their epochs, counters, taints and locks, and not the waits
    for a check-in. -/
theorem refused_unchanged (hblank : Blank hctx) (hwaiting : hctx.waitingCheckin = none)
    (hrun : Runs step (fun w e _ => OneByOne w e) (idle hctx) w) (hrest : AtRest w)
    {rpc : Rpc} {peer : String} {fuel : Nat} {env : Environment} (hclient : rpc.aide = false)
    (hquery : ∀ payload, rpc ≠ .inspectState payload)
    (harrive : step w (.arrive rpc peer fuel env) = some w₁)
    (hwork : Runs step (fun _ e _ => NoRequest e) w₁ w') (hrest' : AtRest w')
    (hrunning : w'.halted = none) {status : Status}
    (hfirst : firstAnswer w w' = some (.finishWithError status)) :
    clientView w'.shared = clientView w.shared := by
  rcases handled_request (D := Dealt anyServer rpc (own w.shared)) hblank hwaiting hrun hrest
    hclient harrive hwork hrest' hrunning fun horder => deals_request hclient horder
    with ⟨horder, hdealt⟩
  -- `more` is what was answered to this request, and its head is the error
  rcases hdealt.answered with ⟨more, hmore, hunchanged⟩
  have hanswers : clientAnswers w'.shared = clientAnswers w.shared ++ more.map (Prod.mk rpc) := hmore
  rw [firstAnswer, hanswers, List.drop_left] at hfirst
  cases more with
  | nil => cases hfirst
  | cons answer more =>
      rw [List.map_cons, List.head?_cons, Option.map_some, Option.some.injEq] at hfirst
      have hanswer : answer = .finishWithError status := hfirst
      exact clientView_of_unchanged (hunchanged status more (by rw [hanswer]) hquery) horder.waiting

/-- FinishEpoch is all or nothing, whatever the machine server answers on the way. By
    the time it has been dealt with nothing has changed, or the active epoch is finished
    with its proofs, the next one has started from it, and the response was sent. -/
theorem finish_all_or_nothing (hblank : Blank hctx) (hwaiting : hctx.waitingCheckin = none)
    (hrun : Runs step (fun w e _ => OneByOne w e) (idle hctx) w) (hrest : AtRest w)
    {request : FinishEpochRequest} {peer : String} {fuel : Nat} {env : Environment}
    (harrive : step w (.arrive (.finishEpoch request) peer fuel env) = some w₁)
    (hwork : Runs step (fun _ e _ => NoRequest e) w₁ w') (hrest' : AtRest w')
    (hrunning : w'.halted = none) : FinishOutcome request (own w.shared) (own w'.shared) :=
  (handled_request hblank hwaiting hrun hrest rfl harrive hwork hrest' hrunning
    ensures_finishEpoch).2

end Refused

end ServerManager

/-! ### On the sample -/

namespace ServerManager

open Coroutine

attribute [local instance] keccak256

def isRefusal : Answer → Bool
  | .finishWithError _ => true
  | .finish _ => false

/-- After an input was skipped, the epoch is to be finished with a wrong count. -/
theorem refused_unchanged_sample : ∃ w w₁ w' x, Runs step (fun w e _ => OneByOne w e) (idle emptyContext) w ∧
    step w (.request (sampleFinish 2 "")) = some w₁ ∧ Runs step (fun _ e _ => NoRequest e) w₁ w' ∧
    w.shared.session = some (0, x) ∧ (firstAnswer w w').any isRefusal = true ∧
    clientView w'.shared = clientView w.shared := by
  have hplay : ∃ w, Runs step (fun w e _ => OneByOne w e) (idle emptyContext) w ∧
      (settledIn 0 w && (step w (.request (sampleFinish 2 ""))).any fun w₁ =>
        (play step (fun _ e _ => decide (NoRequest e)) w₁ [.answered 5]).any fun w' =>
          decide (AtRest w') && (w'.halted.isNone && (firstAnswer w w').any isRefusal)) = true :=
    exists_run (fun w e _ => decide (OneByOne w e)) skippingEvents
      (fun _ _ _ h => of_decide_eq_true h) (by decide +kernel)
  rcases hplay with ⟨w, hrun, hw⟩
  rw [Bool.and_eq_true] at hw
  rcases settledIn_spec hw.1 with ⟨hrest, -, x, hx, -⟩
  rcases (Option.any_eq_true ..).1 hw.2 with ⟨w₁, harrive, hlast⟩
  rcases exists_run (C := fun _ e _ => NoRequest e) _ _ (fun _ _ _ h => of_decide_eq_true h) hlast
    with ⟨w', hwork, hw'⟩
  rw [Bool.and_eq_true, Bool.and_eq_true, decide_eq_true_eq, Option.isNone_iff_eq_none] at hw'
  rcases hw' with ⟨hrest', hrunning, hrefused⟩
  rcases (Option.any_eq_true ..).1 hrefused with ⟨response | status, hfirst, hrefusal⟩
  · cases hrefusal
  · exact ⟨w, w₁, w', x, hrun, harrive, hwork, hx, hrefused, refused_unchanged blank_empty rfl hrun
      hrest rfl (fun _ h => by cases h) harrive hwork hrest' hrunning hfirst⟩

/-- After an input was skipped, the epoch is finished. -/
theorem finish_all_or_nothing_sample : ∃ w w₁ w' x x' request,
    Runs step (fun w e _ => OneByOne w e) (idle emptyContext) w ∧
    step w (.request (.finishEpoch request)) = some w₁ ∧
    Runs step (fun _ e _ => NoRequest e) w₁ w' ∧
    w.shared.session = some (0, x) ∧ w'.shared.session = some (0, x') ∧
    x.activeEpochIndex = 0 ∧ x'.activeEpochIndex = 1 ∧
    FinishOutcome request (own w.shared) (own w'.shared) := by
  have hplay : ∃ w, Runs step (fun w e _ => OneByOne w e) (idle emptyContext) w ∧
      (settledIn 0 w && (step w (.request (sampleFinish 1 ""))).any fun w₁ =>
        (play step (fun _ e _ => decide (NoRequest e)) w₁ [.answered 5]).any (settledIn 1)) = true :=
    exists_run (fun w e _ => decide (OneByOne w e)) skippingEvents
      (fun _ _ _ h => of_decide_eq_true h) (by decide +kernel)
  rcases hplay with ⟨w, hrun, hw⟩
  rw [Bool.and_eq_true] at hw
  rcases settledIn_spec hw.1 with ⟨hrest, -, x, hx, -, hindex⟩
  rcases (Option.any_eq_true ..).1 hw.2 with ⟨w₁, harrive, hlast⟩
  rcases exists_run (C := fun _ e _ => NoRequest e) _ _ (fun _ _ _ h => of_decide_eq_true h) hlast
    with ⟨w', hwork, hw'⟩
  rcases settledIn_spec hw' with ⟨hrest', hrunning, x', hx', -, hindex'⟩
  exact ⟨w, w₁, w', x, x', _, hrun, harrive, hwork, hx, hx', hindex, hindex',
    finish_all_or_nothing blank_empty rfl hrun hrest harrive hwork hrest' hrunning⟩

end ServerManager
