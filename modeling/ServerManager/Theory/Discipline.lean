import ServerManager.Core.Sample
import ServerManager.Theory.Resumes

/-!
# The Coroutine Discipline

The comment on the handlers says what a coroutine must do: it is deleted by the
dispatch loop when it is over, so it must be over only when the loop has resumed
it, and it must not be over while the completion queue can still return it. Here
that is a statement about runs of any number of sessions, with any events in any
order. It holds along every run whose steps are orderly.

Without the condition it does not hold: the first input of a session, whose
snapshot is not followed by a check-in. The deadline resumes AdvanceState, which
taints the session and is over, and the loop only deletes the deadline.

## Main definitions

* `orphaningEvents`: The run after which a handler is over and nobody deletes it.

## Theorems

* `runs_punctual`: The invariant holds along orderly runs.
* `handlers_finish_in_loop`: Handlers are over only under the dispatch loop.
* `handler_orphaned`: A run in which one is over elsewhere.
-/

namespace ServerManager

open Coroutine

/-- Nobody waits for anything in the manager as it starts. -/
theorem scheduled_blank {hctx : HandlerContext} (hb : Blank hctx) :
    Scheduled (fun _ => none) (Callbacks.of hctx) 0 := by
  have hnone : (Callbacks.of hctx).table = none := by
    unfold Callbacks.of
    rw [hb.session]
    rfl
  have hempty : (Callbacks.of hctx).queue = [] := hb.queue
  have hlined : ∀ B i coroutine, ¬ Lined (fun _ => none) (Callbacks.of hctx) B i coroutine := by
    rintro B i coroutine ⟨d, -, hB, -⟩
    cases hB
  have hout : ∀ g, some g ∉ (Callbacks.of hctx).queue := by
    intro g
    rw [hempty]
    exact List.not_mem_nil
  have htable : ∀ d, (Callbacks.of hctx).table ≠ some d := by
    intro d hd
    rw [hnone] at hd
    cases hd
  exact {
    parked := fun g hg => absurd hg (hout g)
    once := fun g => by rw [hempty]; exact Nat.zero_le _
    owed := fun _ ⟨_, _, h, _⟩ => nomatch h
    debtor := fun _ _ _ _ _ h => nomatch h
    session := fun d hd => absurd hd (htable d)
    refs := fun _ ⟨_, _, h, _⟩ => nomatch h
    asked := fun d _ hd => absurd hd (htable d)
    alone := fun _ _ _ _ _ h => nomatch h
    waits := fun B i coroutine h => absurd h (hlined B i coroutine)
    serves := fun B i a h => absurd h (hlined B i (some a))
    apart := fun B _ i _ a h => absurd h (hlined B i (some a))
    points := fun d _ _ _ _ hd => absurd hd (htable d)
    named := fun d _ _ hd => absurd hd (htable d)
    started := fun _ _ _ h => nomatch h }

section Runs

variable [Keccak]

theorem punctual_idle {hctx : HandlerContext} (hb : Blank hctx) : Punctual (idle hctx) :=
  ⟨fun _ => none, ⟨trivial, fun _ => trivial, fun _ _ => rfl⟩, scheduled_blank hb,
    ⟨fun _ _ _ _ h => (nomatch h), rfl⟩⟩

/-- The invariant holds along orderly runs, as long as the process goes on. -/
theorem runs_punctual {w₀ w : Manager} (hrun : Runs step (fun w e _ => Orderly w e) w₀ w)
    (h₀ : Punctual w₀) : w.halted = none → Punctual w := by
  refine runs_invariant (I := fun w => w.halted = none → Punctual w) hrun (fun _ => h₀)
    fun w₁ e w₂ hI hstep ho => ?_
  exact (step_disciplined (hI (step_running hstep)) hstep ho).2

/-- Handlers are over only under the dispatch loop: in a run of any number of
    sessions whose steps are orderly, a handler that is over after a step was resumed
    by the loop in that step, nothing is left that returns it, and it does not run
    again. -/
theorem handlers_finish_in_loop {Id : Type} [DecidableEq Id] {start ws ws' : Id → Manager}
    {e : Id × Event} (hstart : ∀ id, ∃ hctx, Blank hctx ∧ start id = idle hctx)
    (hrun : Runs (stepAt step) (fun ws e _ => Orderly (ws e.1) e.2) start ws)
    (hstep : stepAt step ws e = some ws') (ho : Orderly (ws e.1) e.2) :
    Disciplined (ws e.1) e.2 (ws' e.1) := by
  rcases hstart e.1 with ⟨hctx, hblank, hidle⟩
  have hcomponent : Runs step (fun w e _ => Orderly w e) (idle hctx) (ws e.1) :=
    hidle ▸ runs_component hrun (fun _ _ _ h => h) e.1
  have hstep' := (stepAt_component hstep).1
  have hpunctual := runs_punctual hcomponent (punctual_idle hblank) (step_running hstep')
  exact (step_disciplined hpunctual hstep' ho).1

end Runs

/-! ### On the sample -/

attribute [local instance] keccak256

/-- An input comes. The machine takes the snapshot and does not check in, and the
    alarm of the deadline fires. -/
def orphaningEvents : List Event :=
  startEvents ++ [.request (.advanceState (sampleRequest 0)), .answered 2, .answered 2, .fire 1]

/-- The deadline resumes AdvanceState, which is over after that: the dispatch loop
    has resumed the deadline, and deletes nothing else. -/
theorem handler_orphaned : ∃ w w', Runs step (fun _ _ _ => True) (idle emptyContext) w ∧
    step w (.alarm 1 calm) = some w' ∧ w'.halted = none ∧
      directTarget w (.alarm 1 calm) = some 2 ∧ (w.handlers 2).isSome = true ∧
        w'.handlers 2 = none ∧ ¬ Disciplined w (.alarm 1 calm) w' := by
  have hplay : ∃ w, Runs step (fun _ _ _ => True) (idle emptyContext) w ∧
      ((step w (.alarm 1 calm)).any fun w' => w'.halted.isNone &&
        (directTarget w (.alarm 1 calm) == some 2 && ((w.handlers 2).isSome &&
          (w'.handlers 2).isNone))) = true :=
    exists_run (fun _ _ _ => true) orphaningEvents (fun _ _ _ _ => trivial) (by decide +kernel)
  rcases hplay with ⟨w, hrun, hlast⟩
  rcases (Option.any_eq_true ..).1 hlast with ⟨w', hstep, hw⟩
  simp only [Bool.and_eq_true, Option.isNone_iff_eq_none, beq_iff_eq] at hw
  rcases hw with ⟨hhalted, hdirect, hparked, hover⟩
  refine ⟨w, w', hrun, hstep, hhalted, hdirect, hparked, hover, fun hd => ?_⟩
  have hran : runsIn w (.alarm 1 calm) 2 = true := by simp [runsIn, hdirect]
  exact (hd.loop 2 hran hhalted hover).2 hdirect

/-! #### An orderly run -/

/-- AdvanceState finds its own name, or that of an InspectState that waits. -/
def foundTest (w : Manager) (i : HandlerId) : Bool :=
  match w.handlers i, w.shared.session with
  | some p, some (_, session) =>
    match p.tag with
    | .advanceState request =>
      [request.activeEpochIndex, session.activeEpochIndex].all fun index =>
        match session.callers index with
        | some (some g) => g == i || (w.handlers g).any fun pg => (pg.op matches .awaitInputs)
        | _ => true
    | .finishEpoch _ => false
    | _ => true
  | _, _ => true

/-- A test for steps in which FinishEpoch does not run, and AdvanceState is resumed
    on the spot only when a query waits. -/
def orderlyTest (w : Manager) (e : Event) : Bool :=
  ((directTarget w e).all fun g => (w.handlers g).any fun p =>
    (p.op matches .checkin) && (!(p.tag matches .advanceState _) ||
      w.shared.session.any fun s => (s.2.epochs.lookup s.2.activeEpochIndex).any fun epoch =>
        epoch.pendingQuery.isSome)) &&
  ((directTarget w e).all (foundTest w) && (e.runner w).all (foundTest w)) &&
  w.shared.session.all fun s => s.2.epochs.entries.all fun epoch =>
    epoch.2.processedInputs.length < 2 ^ 32

theorem found_of_test {w : Manager} {i g : HandlerId} {p : Suspended handlerSignature Rpc}
    {request : AdvanceStateRequest} {ref : Nat} {session : SessionType} {index : UInt64}
    (htest : foundTest w i = true) (hp : w.handlers i = some p)
    (htag : p.tag = .advanceState request) (hs : w.shared.session = some (ref, session))
    (hindex : index = request.activeEpochIndex ∨ index = session.activeEpochIndex)
    (hcaller : session.callers index = some (some g)) :
    g = i ∨ ∃ pg, w.handlers g = some pg ∧ pg.op = .awaitInputs := by
  simp only [foundTest, hp, hs, htag, List.all_eq_true] at htest
  have hfound := htest index (by simpa using hindex)
  simp only [hcaller, Bool.or_eq_true, beq_iff_eq, Option.any_eq_true] at hfound
  rcases hfound with rfl | ⟨pg, hpg, hop⟩
  · exact Or.inl rfl
  · refine Or.inr ⟨pg, hpg, ?_⟩
    generalize pg.op = op at hop
    cases op <;> first | rfl | cases hop

theorem orderly_of_test {w : Manager} {e : Event} (h : orderlyTest w e = true) : Orderly w e := by
  simp only [orderlyTest, Bool.and_eq_true, Option.all_eq_true] at h
  rcases h with ⟨⟨htarget, hdirect, hrunner⟩, hnumbers⟩
  -- what the test says of the handler that is resumed on the spot
  have hresumed : ∀ g, directTarget w e = some g → ∃ p, w.handlers g = some p ∧
      p.op = .checkin ∧ (∀ request, p.tag = .advanceState request → QueryWaits w) := by
    intro g hg
    rcases (Option.any_eq_true ..).1 (htarget g hg) with ⟨p, hp, hop⟩
    rw [Bool.and_eq_true] at hop
    refine ⟨p, hp, ?_, fun request htag => ?_⟩
    · have hcheckin := hop.1
      generalize p.op = op at hcheckin
      cases op <;> first | rfl | cases hcheckin
    · have hquery := hop.2
      rw [htag, Bool.not_true, Bool.false_or] at hquery
      rcases (Option.any_eq_true ..).1 hquery with ⟨⟨ref, session⟩, hs, hepoch⟩
      rcases (Option.any_eq_true ..).1 hepoch with ⟨epoch, he, hq⟩
      exact ⟨ref, session, epoch, hs, he, hq⟩
  refine ⟨fun g hg => ?_, fun g p request hg hp htag => ?_, ?_, ?_, ?_⟩
  · rcases hresumed g hg with ⟨p, hp, hop, -⟩
    exact ⟨p, hp, hop⟩
  · rcases hresumed g hg with ⟨p', hp', -, hquery⟩
    rw [hp] at hp'
    cases hp'
    exact Or.inl (hquery request htag)
  · intro i p request ref session index g hran hp htag hs _ hindex hcaller
    refine found_of_test ?_ hp htag hs hindex hcaller
    rw [runsIn, Bool.or_eq_true, beq_iff_eq, beq_iff_eq] at hran
    rcases hran with hran | hran
    · exact hrunner i hran
    · exact hdirect i hran
  · intro ref session index epoch hs he
    have hall := hnumbers (ref, session) hs
    rw [List.all_eq_true] at hall
    exact of_decide_eq_true (hall ⟨index, epoch⟩ (AList.mem_lookup_iff.1 he))
  · intro h p request c ref session hran hp htag _ hs
    have hfinish := hrunner h hran
    simp only [foundTest, hp, hs, htag] at hfinish
    cases hfinish

/-- An input comes, and a query lines up behind it. The snapshot is not followed by
    a check-in, but the query waits. -/
def orderlyEvents : List Event :=
  startEvents ++ [.request (.advanceState (sampleRequest 0)), .answered 2,
    .request (.inspectState sampleQuery), .answered 2, .fire 1]

/-- Two sessions start, and AdvanceState of one of them is resumed by the deadline
    and waits again. -/
theorem handlers_finish_in_loop_sample : ∃ ws ws' : Bool → Manager,
    Runs (stepAt step) (fun ws e _ => Orderly (ws e.1) e.2) (fun _ => idle emptyContext) ws ∧
      stepAt step ws (true, .alarm 1 calm) = some ws' ∧
        directTarget (ws true) (.alarm 1 calm) = some 2 ∧ ((ws' true).handlers 2).isSome = true ∧
          Disciplined (ws true) (.alarm 1 calm) (ws' true) := by
  have hplay : ∃ ws : Bool → Manager,
      Runs (stepAt step) (fun ws e _ => Orderly (ws e.1) e.2) (fun _ => idle emptyContext) ws ∧
        (orderlyTest (ws true) (.alarm 1 calm) && (stepAt step ws (true, .alarm 1 calm)).any fun ws' =>
          directTarget (ws true) (.alarm 1 calm) == some 2 && ((ws' true).handlers 2).isSome) = true :=
    exists_run (fun ws e _ => orderlyTest (ws e.1) e.2)
      (startEvents.map (Prod.mk false) ++ orderlyEvents.map (Prod.mk true))
      (fun _ _ _ h => orderly_of_test h) (by decide +kernel)
  rcases hplay with ⟨ws, hrun, hlast⟩
  rw [Bool.and_eq_true] at hlast
  rcases (Option.any_eq_true ..).1 hlast.2 with ⟨ws', hstep, hw⟩
  rw [Bool.and_eq_true, beq_iff_eq] at hw
  exact ⟨ws, ws', hrun, hstep, hw.1, hw.2, handlers_finish_in_loop
    (fun _ => ⟨emptyContext, blank_empty, rfl⟩) hrun hstep (orderly_of_test hlast.1)⟩

end ServerManager
