import ServerManager.Theory.Queue

/-!
# One Processor of Inputs

AdvanceState begins to process inputs if it finds its own input alone in the
queue, after the acknowledgement of its answer. The comment in the source argues
that nobody else can be processing inputs then. The argument overlooks the
acknowledgement: while AdvanceState waits for it, the one that processes inputs
goes on, and can work its way through the queue until only the last input is
left. AdvanceState then takes that input for its own.

The other way to get there is through a query. The handler that was to process
the last input is parked for a query with an empty queue, and AdvanceState is
let in behind it.

`Undisturbed` is that neither of the two happens in a step.

## Main definitions

* `SoleProcessor`: Nobody else processes inputs when AdvanceState begins to.
* `Undisturbed`: What a step must not do.
* `ProcessorInv`: Those who process and those who wait to, and the queue.
* `succeeds`: A call to the machine server succeeds.

## Theorems

* `turn_processor`: A turn keeps the invariant.
* `sole_processor`: One processor in every undisturbed run.
* `concurrent_processing`: Two of them.
-/

namespace ServerManager

open Coroutine

variable [Keccak]

/-- `processing_lock` of the session. -/
def processingLocked (w : Manager) : Bool :=
  (w.shared.session.map fun s => s.2.processingLock).getD false

omit [Keccak] in
theorem processingLocked_eq (w : Manager) :
    processingLocked w = (View.of w.shared).processing := by
  unfold processingLocked View.of
  cases w.shared.session with
  | none => rfl
  | some entry => rfl

/-- An AdvanceState that will find one input in the queue when its answer is
    acknowledged finds nobody in `process_pending_inputs`, and the test for
    concurrent processing fails. -/
structure SoleProcessor (w : Manager) : Prop where
  alone : ∀ h, AwaitsAck w h → (pendingInputs w).length = 1 → ∀ k, ¬ InProcessing w k
  unlocked : ∀ h, AwaitsAck w h → (pendingInputs w).length = 1 → processingLocked w = false

/-- No input is removed from a queue of two while an AdvanceState waits for its
    acknowledgement, and none is put in an empty queue behind a handler that is
    parked for a query. -/
structure Undisturbed (w w' : Manager) : Prop where
  removal : ∀ h < w.next, AwaitsAck w h → processedCount w' ≠ processedCount w →
    (pendingInputs w).length ≠ 2
  arrival : ∀ h < w.next, InHandOff w h → (pendingInputs w).length = 0 →
    (pendingInputs w').length = 0

instance (w w' : Manager) : Decidable (Undisturbed w w') :=
  decidable_of_iff
    ((∀ h < w.next, AwaitsAck w h → processedCount w' ≠ processedCount w →
      (pendingInputs w).length ≠ 2) ∧
    (∀ h < w.next, InHandOff w h → (pendingInputs w).length = 0 → (pendingInputs w').length = 0))
    ⟨fun h => ⟨h.1, h.2⟩, fun h => ⟨h.1, h.2⟩⟩

/-- The queue is long enough for those who process it and those who wait to. -/
structure ProcessorInv (φ : HandlerId → Option Phase) (v : View) : Prop where
  solo : SoloInv φ v
  held : Held Phase.processing View.processing φ v
  behind : ∀ k h, PhaseIn Phase.processing φ k → PhaseIn Phase.ack φ h → 2 ≤ v.inputs.length
  first : ∀ h, PhaseIn Phase.ack φ h → 1 ≤ v.inputs.length
  apart : ∀ h k, PhaseIn Phase.ack φ h → PhaseIn Phase.ack φ k → h ≠ k → 2 ≤ v.inputs.length

omit [Keccak] in
/-- Whoever is inside `process_pending_inputs` is parked for a query, or has an
    input in front of it. -/
theorem WorkInv.front {φ : HandlerId → Option Phase} {v : View} (hI : WorkInv φ v)
    {k : HandlerId} (hk : PhaseIn Phase.processing φ k) :
    PhaseIn Phase.handOff φ k ∨ 1 ≤ v.inputs.length := by
  rcases phaseIn_iff.1 hk with ⟨ph, hφ, hph⟩
  cases ph with
  | advancing index number stage =>
      rcases hI.holds k _ hφ with ⟨rfl, -, e, he, -, hpend⟩
      rw [inputs_of_record he]
      exact Or.inr (List.length_pos_iff.2 hpend)
  | handedOff index => exact Or.inl (phaseIn_of hφ rfl)
  | _ => cases hph

section Turns

variable {w : Manager} {φ φ' : HandlerId → Option Phase} {e : Event} {i : HandlerId} {rpc : Rpc}
  {ph : Phase} {v₀ v' : View} {t : Option Phase}

/-- A turn keeps the invariant, if it takes no input from a queue of two behind
    which somebody waits, and puts none in an empty one behind a parked handler. -/
theorem turn_processor (hturn : Turn w φ e i rpc ph v₀ t φ' v') (honly : e.only SoloRpc)
    (ha : sessionProtocol.Abides w φ)
    (hremoval : ∀ h, PhaseIn Phase.ack φ h → v'.count ≠ (View.of w.shared).count →
      (View.of w.shared).inputs.length ≠ 2)
    (harrival : ∀ h, PhaseIn Phase.handOff φ h → (View.of w.shared).inputs.length = 0 →
      v'.inputs.length = 0)
    (hI : ProcessorInv φ (View.of w.shared)) : ProcessorInv φ' v' := by
  have hsolo := turn_solo hturn honly ha hI.solo
  have hheld : Held Phase.processing View.processing φ' v' :=
    turn_held hturn rfl (fun _ => rfl) hturn.enters.processing (trans_processing hturn.trans)
      hI.held
  have hinputs := hturn.enters.inputs
  have hin : PhaseIn Phase.processing φ i ↔ ph.processing = true := hturn.enters.inside rfl
  have hwaits : PhaseIn Phase.ack φ i ↔ ph.ack = true := hturn.enters.inside rfl
  -- where nobody new comes in and the queue stays, there is nothing to show
  have hsame : v'.inputs = v₀.inputs →
      (∀ k, PhaseIn Phase.processing φ' k → PhaseIn Phase.processing φ k) →
      (∀ k, PhaseIn Phase.ack φ' k → PhaseIn Phase.ack φ k) → ProcessorInv φ' v' := by
    intro heq hproc hack
    have hlen : v'.inputs.length = (View.of w.shared).inputs.length := by rw [heq, hinputs]
    refine ⟨hsolo, hheld, fun k h hk hh => ?_, fun h hh => ?_, fun h k hh hk hne => ?_⟩
    · exact hlen ▸ hI.behind k h (hproc k hk) (hack h hh)
    · exact hlen ▸ hI.first h (hack h hh)
    · exact hlen ▸ hI.apart h k (hack h hh) (hack k hk) hne
  cases turn_inputs hturn honly ha hI.solo with
  | rest hack hproc heq =>
      refine hsame heq (fun k => ?_) fun k => ?_
      · exact (hturn.unmoved rfl (fun _ => rfl) hproc k).1
      · exact (hturn.unmoved rfl (fun _ => rfl) hack k).1
  | accept input hph ht hlock _ hset heq =>
      have hlen : v'.inputs.length = (View.of w.shared).inputs.length + 1 := by
        rw [heq, hinputs, List.length_append, List.length_singleton]
      have hproc : ∀ k, PhaseIn Phase.processing φ' k → PhaseIn Phase.processing φ k :=
        fun k hk => (hturn.outside (fun _ => rfl) (by rw [ht]; rfl) hk).2
      have hack : ∀ k, k ≠ i → PhaseIn Phase.ack φ' k → PhaseIn Phase.ack φ k :=
        fun k hki hk => (hturn.elsewhere (fun _ => rfl) hki).1 hk
      refine ⟨hsolo, hheld, fun k h hk hh => ?_, fun h hh => by omega, fun h k hh hk hne => ?_⟩
      · rcases hI.solo.work.front (hproc k hk) with hparked | hfront
        · have hnonempty : (View.of w.shared).inputs.length ≠ 0 := by
            intro hempty
            rw [harrival k hparked hempty] at hlen
            cases hlen
          omega
        · omega
      · by_cases hhi : h = i
        · have hfirst := hI.first k (hack k (fun hki => hne (hhi.trans hki.symm)) hk)
          omega
        · have hfirst := hI.first h (hack h hhi hh)
          omega
  | pass hph hack hproc heq hwhy =>
      refine hsame heq (fun k hk => ?_) fun k hk => ?_
      · exact (hturn.outside (fun _ => rfl) hproc hk).2
      · exact (hturn.outside (fun _ => rfl) hack hk).2
  | begin hph hack hproc heq hlock hone hfree =>
      -- it was the only one to wait for an acknowledgement
      have hnobody : ∀ h, ¬ PhaseIn Phase.ack φ' h := by
        intro h hh
        rcases hturn.outside (fun _ => rfl) hack hh with ⟨hne, hwas⟩
        have htwo := hI.apart h i hwas (hwaits.2 hph) hne
        rw [← hinputs, hone] at htwo
        omega
      exact ⟨hsolo, hheld, fun k h _ hh => absurd hh (hnobody h),
        fun h hh => absurd hh (hnobody h), fun h k hh => absurd hh (hnobody h)⟩
  | stop hph hack hproc heq hwhy =>
      refine hsame heq (fun k hk => ?_) fun k hk => ?_
      · exact (hturn.outside (fun _ => rfl) hproc hk).2
      · exact (hturn.outside (fun _ => rfl) hack hk).2
  | pop hph hack hne heq hcount hproc =>
      have hlen : v'.inputs.length = (View.of w.shared).inputs.length - 1 := by
        rw [heq, hinputs, List.length_tail]
      -- somebody who waits makes it a queue of three, of which two are left
      have hlong : ∀ h, PhaseIn Phase.ack φ' h → 2 ≤ v'.inputs.length := by
        intro h hh
        have hwas := (hturn.outside (fun _ => rfl) hack hh).2
        have htwo := hI.behind i h (hin.2 hph) hwas
        have hthree := hremoval h hwas (by
          rw [hcount, ← hturn.enters.count]
          simp)
        omega
      refine ⟨hsolo, hheld, fun k h _ hh => hlong h hh, fun h hh => ?_,
        fun h k hh _ _ => hlong h hh⟩
      have htwo := hlong h hh
      omega

end Turns

/-- In every run of AdvanceState, InspectState and the reports that is not
    disturbed, one handler at a time processes inputs. -/
theorem sole_processor {hctx : HandlerContext} {session : SessionType}
    (hfresh : FreshSession hctx session) {w : Manager}
    (hrun : Runs step (fun w e w' => e.only SoloRpc ∧ Undisturbed w w') (idle hctx) w)
    (hw : w.halted = none) : SoleProcessor w := by
  rcases freshView_of hfresh with ⟨e₀, hv⟩
  have h₀ : Good ProcessorInv (idle hctx) := by
    refine good_idle ⟨session, hfresh.entry⟩ ⟨soloInv_fresh hv, fun hset => ?_, fun k h hk => ?_,
      fun h hh => ?_, fun h k hh => ?_⟩
    · rw [hv.processing] at hset
      cases hset
    · cases hk
    · cases hh
    · cases hh
  have hgood : Good ProcessorInv w := by
    refine runs_good hrun (fun _ _ _ hc => legal_of_solo hc.1) h₀ ?_ hw
    intro w w' φ φ' e i rpc ph v₀ t hc ha ha' hI hturn
    refine turn_processor hturn hc.1 ha (fun h hh hcount => ?_) (fun h hh hempty => ?_) hI
    · have hparked := (awaitsAck_iff ha).2 hh
      rw [← pendingInputs_eq]
      refine hc.2.removal h (inSection_lt ha hparked) hparked ?_
      rw [processedCount_eq, processedCount_eq]
      exact hcount
    · have hparked := (inHandOff_iff ha).2 hh
      rw [← pendingInputs_eq] at hempty ⊢
      exact hc.2.arrival h (inSection_lt ha hparked) hparked hempty
  rcases hgood with ⟨φ, ha, hI⟩
  have hnone : ∀ h, AwaitsAck w h → (pendingInputs w).length = 1 →
      ∀ k, ¬ PhaseIn Phase.processing φ k := by
    intro h hh hone k hk
    have htwo := hI.behind k h hk ((awaitsAck_iff ha).1 hh)
    rw [pendingInputs_eq] at hone
    omega
  refine ⟨fun h hh hone k hk => ?_, fun h hh hone => ?_⟩
  · exact hnone h hh hone k ((inProcessing_iff ha).1 hk)
  · rw [processingLocked_eq]
    by_contra hset
    rw [Bool.not_eq_false] at hset
    rcases hI.held hset with ⟨k, hk⟩
    exact hnone h hh hone k hk

end ServerManager

/-! ### On the sample session -/

namespace ServerManager

open Coroutine

attribute [local instance] keccak256

/-- The reply to a call has the status OK. -/
def replySucceeds : (op : Op) → op.Reply → Bool
  | .call _, reply => CallReply.status reply |>.isOk
  | _, _ => true

/-- A call to the machine server that completes in this event succeeds. -/
def succeeds (w : Manager) : Event → Bool
  | .complete h reply _ => (w.handlers h).all fun p => replySucceeds p.op (reply p.op)
  | _ => true

/-- The status a session was tainted with, if it was. -/
def taintStatus (w : Manager) : Option Status :=
  w.shared.session.bind fun s => taintStatusMessage s.2

/-- The first AdvanceState processes its input while the second one waits for
    its acknowledgement, and goes on with the second input. -/
def overtakingEvents : List Event :=
  [.request (.advanceState (sampleRequest 0)), .answered 0,
    .request (.advanceState (sampleRequest 1)),
    .answered 0, .checkIn, .answered 2, .answered 0, .checkIn, .answered 3, .answered 0]

/-- With every call to the machine server succeeding, a second AdvanceState
    begins to process inputs beside the first, and taints the session. -/
theorem concurrent_processing : ∃ w w',
    Runs step (fun w e _ => e.only MachineRpc ∧ succeeds w e) (idle sampleContext) w ∧
      w.halted = none ∧ ¬ SoleProcessor w ∧ step w (.answered 1) = some w' ∧
      taintStatus w' = some ⟨.internal, "concurrent input processing detected in session"⟩ := by
  obtain ⟨w, hrun, hw⟩ : ∃ w,
      Runs step (fun w e _ => e.only MachineRpc ∧ succeeds w e) (idle sampleContext) w ∧
        (w.halted.isNone && decide (AwaitsAck w 1) && (pendingInputs w).length == 1 &&
          decide (InProcessing w 0) && (step w (.answered 1)).any fun w' => taintStatus w' =
            some ⟨.internal, "concurrent input processing detected in session"⟩) = true :=
    exists_run (fun w e _ => decide (e.only MachineRpc ∧ succeeds w e)) overtakingEvents
      (fun _ _ _ h => of_decide_eq_true h) (by decide +kernel)
  simp only [Bool.and_eq_true, Option.isNone_iff_eq_none, beq_iff_eq, decide_eq_true_eq,
    Option.any_eq_true] at hw
  rcases hw with ⟨⟨⟨⟨hhalt, hwaits⟩, hone⟩, hbusy⟩, w', hstep, htaint⟩
  exact ⟨w, w', hrun, hhalt, fun hsole => hsole.alone 1 hwaits hone 0 hbusy, hstep, htaint⟩

/-- The second AdvanceState comes when the first input is processed, and is the
    only one that has something to do. -/
theorem sole_processor_sample : ∃ w,
    Runs step (fun w e w' => e.only SoloRpc ∧ Undisturbed w w') (idle sampleContext) w ∧
      AwaitsAck w 3 ∧ (pendingInputs w).length = 1 ∧ SoleProcessor w := by
  obtain ⟨w, hrun, hw⟩ : ∃ w,
      Runs step (fun w e w' => e.only SoloRpc ∧ Undisturbed w w') (idle sampleContext) w ∧
        (w.halted.isNone && decide (AwaitsAck w 3) && (pendingInputs w).length == 1) = true :=
    exists_run (fun w e w' => decide (e.only SoloRpc ∧ Undisturbed w w'))
      [.request (.advanceState (sampleRequest 0)), .answered 0, .answered 0, .checkIn, .answered 1,
        .answered 0, .checkIn, .answered 2, .answered 0, .request (.advanceState (sampleRequest 1))]
      (fun _ _ _ h => of_decide_eq_true h) (by decide +kernel)
  simp only [Bool.and_eq_true, Option.isNone_iff_eq_none, beq_iff_eq, decide_eq_true_eq] at hw
  exact ⟨w, hrun, hw.1.2, hw.2, sole_processor freshSession_sample hrun hw.1.1⟩

end ServerManager
