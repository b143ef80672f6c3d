import ServerManager.Theory.Queue

/-!
# Tainted Sessions

A session is tainted when a handler gives up on the machine. Requests that come
later are refused, but a handler that is already inside `process_pending_inputs`
does not look at the flag again: it goes on with its input, and after it with
the next one. Two handlers can taint a session under its nose. A query that
fails between two inputs does, and puts the handler it had taken the machine
from back in the completion queue; and so does an AdvanceState that wrongly
takes itself for the one to process inputs.

`TaintsIdle` is that nobody has an input in front of him when the session is
tainted, and then the taint is final.

## Main definitions

* `AtSnapshot`: In the snapshot request that starts an input or a query.
* `TaintFinal`: Nothing has happened to a session since it was tainted.
* `TaintsIdle`: Nobody goes on with an input when the session is tainted.
* `TaintInv`, `Settled`: The invariants of a tainted session.

## Theorems

* `settled_step`: A segment does nothing to a tainted session.
* `taint_final`: Taint is final in every run in which it finds the session idle.
* `taint_ignored`: An input is processed after the taint.
-/

namespace ServerManager

open Coroutine

variable [Keccak]

/-! ### The start of a transaction -/

/-- The snapshot request with which an input or a query starts. -/
def snapshotAt : Rpc → Op → Bool
  | .advanceState _, .call .snapshot | .inspectState _, .call .snapshot => true
  | _, _ => false

abbrev AtSnapshot : Manager → HandlerId → Prop := InSection snapshotAt

def Phase.starting : Phase → Bool
  | .advancing _ _ .snapshot | .inspecting _ _ .snapshot => true
  | _ => false

omit [Keccak] in
theorem starting_of_phaseAt {rpc : Rpc} {ph : Phase} {op : Op} (hat : PhaseAt rpc ph op) :
    snapshotAt rpc op = ph.starting := by
  cases hat with
  | reporting => cases rpc <;> rfl
  | refused => cases rpc <;> rfl
  | resuming => cases rpc <;> rfl
  | @advanceCall _ _ _ c hc => cases c <;> first | rfl | exact absurd rfl hc
  | @inspectCall _ _ _ c hc => cases c <;> first | rfl | exact absurd rfl hc
  | _ => rfl

theorem atSnapshot_iff {w : Manager} {φ : HandlerId → Option Phase}
    (ha : sessionProtocol.Abides w φ) {h : HandlerId} :
    AtSnapshot w h ↔ PhaseIn Phase.starting φ h := inSection_iff ha starting_of_phaseAt h

/-- The snapshot request is where a transaction starts. -/
theorem starts_of_starting {h : HandlerId} {rpc : Rpc} {ph ph' : Phase} {v v' : View}
    (hstep : Trans h rpc ph v (some ph') v') (hstart : ph'.starting = true) :
    Starts h rpc ph v ph' v' := by
  cases hstep with
  | start hs => exact hs
  | finish _ _ _ _ _ _ _ hf => cases hf <;> cases hstart
  | stored _ hf => cases hf <;> cases hstart
  | acceptedTaint _ ht => cases ht; cases hstart
  | advanceTaint _ ht => cases ht; cases hstart
  | @advance _ _ _ _ _ stage' _ _ hf hw =>
      cases stage' with
      | snapshot => exact absurd hw id
      | calling => cases hstart
      | waiting => cases hstart
  | @inspect _ _ _ _ _ stage' _ _ hf hw =>
      cases stage' with
      | snapshot => exact absurd hw id
      | calling => cases hstart
      | waiting => cases hstart
  | _ => cases hstart

/-! ### The lock of a tainted session -/

/-- A session is locked by the reports, or if it is not tainted. -/
theorem trans_locks {h : HandlerId} {rpc : Rpc} {ph : Phase} {v v' : View} {t : Option Phase}
    (hstep : Trans h rpc ph v t v') (hfree : v.lock = false) (hset : v'.lock = true) :
    v.tainted = false ∨ (ph = .fresh ∧ Reports rpc) := by
  cases hstep with
  | report hrpc =>
      refine Or.inr ⟨rfl, ?_⟩
      rcases hrpc with rfl | ⟨index, rfl⟩
      · trivial
      · trivial
  | delete => exact Or.inr ⟨rfl, trivial⟩
  | store => exact Or.inr ⟨rfl, trivial⟩
  | finish => exact Or.inr ⟨rfl, trivial⟩
  | stored he hf =>
      cases hf with
      | answered =>
          have hl : v.lock = true := hset
          rw [hfree] at hl
          cases hl
      | proofFailed => cases hset
      | responseFailed => cases hset
  | start hs =>
      cases hs with
      | accepted => cases hset
      | inspect hlock htaint => exact Or.inl htaint
      | _ =>
          have hl : v.lock = true := hset
          rw [hfree] at hl
          cases hl
  | accept hlock htaint => exact Or.inl htaint
  | acceptedTaint hwhy ht =>
      rw [(taints_lock ht).1] at hset
      cases hset
  | advanceTaint hf ht =>
      rw [(taints_lock ht).1] at hset
      cases hset
  | queue hlock htaint => exact Or.inl htaint
  | inspectQuick hlock htaint => exact Or.inl htaint
  | reported => cases hset
  | storeFailed => cases hset
  | acceptedIdle => cases hset
  | advanceFail => cases hset
  | advanceExit => cases hset
  | handedExit => cases hset
  | queuedRefuse => cases hset
  | inspectFail => cases hset
  | inspected => cases hset
  | _ =>
      have hl : v.lock = true := hset
      rw [hfree] at hl
      cases hl

/-- The handler that taints a session unlocks it. -/
theorem trans_taints {h : HandlerId} {rpc : Rpc} {ph : Phase} {v v' : View} {t : Option Phase}
    (hstep : Trans h rpc ph v t v') (hclean : v.tainted = false) (htaint : v'.tainted = true) :
    v'.lock = false := by
  have hsame : v'.tainted = v.tainted → v'.lock = false := by
    intro heq
    rw [heq, hclean] at htaint
    cases htaint
  cases hstep with
  | finish _ _ _ _ _ _ _ hf => cases hf <;> exact hsame rfl
  | stored _ hf => cases hf <;> exact hsame rfl
  | start hs => cases hs <;> exact hsame rfl
  | acceptedTaint hwhy ht => exact (taints_lock ht).1
  | advanceTaint hf ht => exact (taints_lock ht).1
  | queuedRefuse => rfl
  | inspectFail => rfl
  | inspected => rfl
  | _ => exact hsame rfl

/-! ### Nothing happens to a tainted session -/

/-- Nobody can lock a tainted session, and nobody has an input in front of
    him. -/
structure TaintInv (φ : HandlerId → Option Phase) (v : View) : Prop where
  solo : SoloInv φ v
  unlocked : v.tainted = true → v.lock = false
  idle : v.tainted = true → v.inputs = [] ∨ ∀ k, ¬ PhaseIn Phase.processing φ k

/-- A tainted session is as it was with an earlier view, and no transaction has
    been started since. -/
structure Settled (φ₁ : HandlerId → Option Phase) (v₁ : View) (φ : HandlerId → Option Phase)
    (v : View) : Prop where
  tainted : v.tainted = true
  records : v.records = v₁.records
  count : v.count = v₁.count
  mcycle : v.mcycle = v₁.mcycle
  started : ∀ k, PhaseIn Phase.starting φ k → PhaseIn Phase.starting φ₁ k

section Turns

variable {w : Manager} {φ φ' : HandlerId → Option Phase} {e : Event} {i : HandlerId} {rpc : Rpc}
  {ph : Phase} {v₀ v' : View} {t : Option Phase}

/-- In a tainted session, a handler that runs is not one with an input in front
    of it. -/
theorem TaintInv.not_advancing (hI : TaintInv φ (View.of w.shared))
    (henters : Enters w φ e i rpc ph v₀) (htaint : v₀.tainted = true) {index number : UInt64}
    {stage : Stage} : ph ≠ .advancing index number stage := by
  rintro rfl
  rw [henters.tainted] at htaint
  have hparked : φ i = some (.advancing index number stage) := henters.parked Phase.noConfusion
  rcases hI.idle htaint with hempty | hnone
  · rcases hI.solo.work.holds i _ hparked with ⟨rfl, -, epoch, he, -, hpend⟩
    rw [inputs_of_record he] at hempty
    exact hpend hempty
  · exact hnone i (phaseIn_of hparked rfl)

/-- A tainted session cannot be locked by AdvanceState or InspectState. -/
theorem stays_unlocked (hturn : Turn w φ e i rpc ph v₀ t φ' v') (honly : e.only MachineRpc)
    (ha : sessionProtocol.Abides w φ) (htaint : v₀.tainted = true) (hlock : v₀.lock = false) :
    v'.lock = false := by
  by_contra hset
  rw [Bool.not_eq_false] at hset
  rcases trans_locks hturn.trans hlock hset with hclean | ⟨hfresh, hreports⟩
  · rw [htaint] at hclean
    cases hclean
  · rcases hturn.enters.only ha honly hfresh with hallowed | ⟨a, rfl⟩
    · cases rpc <;> first | exact hreports | cases hallowed
    · exact hreports

/-- Nobody gets an input to work on in a tainted session. -/
theorem stays_idle (hturn : Turn w φ e i rpc ph v₀ t φ' v') (honly : e.only MachineRpc)
    (ha : sessionProtocol.Abides w φ) (hI : TaintInv φ (View.of w.shared))
    (htaint : v₀.tainted = true) :
    v'.inputs = [] ∨ ∀ k, ¬ PhaseIn Phase.processing φ' k := by
  have htaint' : (View.of w.shared).tainted = true := hturn.enters.tainted ▸ htaint
  have hidle := hI.idle htaint'
  rw [← hturn.enters.inputs] at hidle
  -- the queue stays and nobody comes in
  have hsame : v'.inputs = v₀.inputs →
      (∀ k, PhaseIn Phase.processing φ' k → PhaseIn Phase.processing φ k) →
      v'.inputs = [] ∨ ∀ k, ¬ PhaseIn Phase.processing φ' k := by
    intro heq hproc
    rw [heq]
    rcases hidle with hempty | hnone
    · exact Or.inl hempty
    · exact Or.inr fun k hk => hnone k (hproc k hk)
  cases turn_inputs hturn (solo_of_machine honly) ha hI.solo with
  | rest hack hproc heq =>
      exact hsame heq fun k => (hturn.unmoved rfl (fun _ => rfl) hproc k).1
  | accept input hph ht hlock hclean =>
      rw [htaint] at hclean
      cases hclean
  | pass hph hack hproc heq =>
      exact hsame heq fun k hk => (hturn.outside (fun _ => rfl) hproc hk).2
  | begin hph hack hproc heq hlock =>
      rw [hturn.enters.lock, hI.unlocked htaint'] at hlock
      cases hlock
  | stop hph hack hproc heq =>
      exact hsame heq fun k hk => (hturn.outside (fun _ => rfl) hproc hk).2
  | pop hph hack hne =>
      rcases hidle with hempty | hnone
      · exact absurd hempty hne
      · exact absurd ((hturn.enters.inside rfl).2 hph) (hnone i)

/-- A turn keeps the invariant, if it does not taint the session while somebody
    has an input in front of him. -/
theorem turn_taint (hturn : Turn w φ e i rpc ph v₀ t φ' v') (honly : e.only MachineRpc)
    (ha : sessionProtocol.Abides w φ)
    (hidle : (View.of w.shared).tainted = false → v'.tainted = true →
      v'.inputs = [] ∨ ∀ k, ¬ PhaseIn Phase.processing φ' k)
    (hI : TaintInv φ (View.of w.shared)) : TaintInv φ' v' := by
  refine ⟨turn_solo hturn (solo_of_machine honly) ha hI.solo, fun htaint => ?_, fun htaint => ?_⟩
  · cases hwas : v₀.tainted with
    | false => exact trans_taints hturn.trans hwas htaint
    | true =>
        refine stays_unlocked hturn honly ha hwas ?_
        rw [hturn.enters.lock]
        exact hI.unlocked (hturn.enters.tainted ▸ hwas)
  · cases hwas : v₀.tainted with
    | false => exact hidle (hturn.enters.tainted ▸ hwas) htaint
    | true => exact stays_idle hturn honly ha hI hwas

/-- A segment changes no record of a tainted session. -/
theorem records_settled (hturn : Turn w φ e i rpc ph v₀ t φ' v') (honly : e.only MachineRpc)
    (ha : sessionProtocol.Abides w φ) (hI : TaintInv φ (View.of w.shared))
    (htaint : v₀.tainted = true) :
    v'.records = v₀.records ∧ v'.count = v₀.count ∧ v'.mcycle = v₀.mcycle := by
  have hsolo := hI.solo.solo (solo_of_machine honly) ha hturn.enters
  rcases hI.solo.work.enter hturn.enters with ⟨hv₀, -⟩
  have hready : ∀ {request epoch}, FinishReady request v₀ epoch ph → rpc ≠ .finishEpoch request := by
    intro request epoch hr
    cases hr with
    | atOnce => exact hsolo.ne_finish request
    | afterStore => exact absurd rfl (hsolo.unstored _)
  cases trans_records hturn.trans with
  | quiet hrec hactive hcount hmcycle => exact ⟨hrec, hcount, hmcycle⟩
  | tree hg hph => exact absurd hph (hI.not_advancing hturn.enters htaint)
  | record hph => exact absurd hph (hI.not_advancing hturn.enters htaint)
  | accept hrpc hph hlock hclean =>
      rw [htaint] at hclean
      cases hclean
  | delete hrpc hph =>
      subst hph
      exact absurd hrpc (hsolo.ne_delete _)
  | finish hrpc hr => exact absurd hrpc (hready hr)
  | spoil hrpc hr => exact absurd hrpc (hready hr)
  | missing he => exact absurd he hv₀.epochs.present

/-- No segment starts a transaction in a tainted session. -/
theorem not_starting (hturn : Turn w φ e i rpc ph v₀ t φ' v')
    (hI : TaintInv φ (View.of w.shared)) (htaint : v₀.tainted = true) :
    t.any Phase.starting = false := by
  by_contra hstart
  rw [Bool.not_eq_false] at hstart
  rcases (Option.any_eq_true ..).1 hstart with ⟨ph', rfl, hph'⟩
  have htaint' : (View.of w.shared).tainted = true := hturn.enters.tainted ▸ htaint
  have hnot := fun {index number stage} =>
    @TaintInv.not_advancing _ _ _ _ _ _ _ _ hI hturn.enters htaint index number stage
  have hsingle := hI.solo.single_enter hturn.enters
  have henters := hturn.enters
  cases starts_of_starting hturn.trans hph' with
  | accepted hlock =>
      rw [henters.lock, hI.unlocked htaint'] at hlock
      cases hlock
  | handedOff he hpend =>
      -- the handler is parked for a query, and finds an input when it goes on
      have hrec := records_some he
      rw [hsingle _ _ hrec] at hrec
      rcases hI.idle htaint' with hempty | hnone
      · rw [← henters.inputs, inputs_of_record hrec] at hempty
        exact hpend hempty
      · exact hnone i ((henters.inside rfl).2 rfl)
  | recorded => exact hnot rfl
  | inspect hlock hclean =>
      rw [htaint] at hclean
      cases hclean
  | queued hclean =>
      rw [htaint] at hclean
      cases hclean

/-- A turn leaves a tainted session as it is. -/
theorem settled_step {φ₁ : HandlerId → Option Phase} {v₁ : View}
    (hturn : Turn w φ e i rpc ph v₀ t φ' v') (honly : e.only MachineRpc)
    (ha : sessionProtocol.Abides w φ) (hI : TaintInv φ (View.of w.shared))
    (hS : Settled φ₁ v₁ φ (View.of w.shared)) : Settled φ₁ v₁ φ' v' := by
  have htaint : v₀.tainted = true := hturn.enters.tainted.trans hS.tainted
  rcases records_settled hturn honly ha hI htaint with ⟨hrec, hcount, hmcycle⟩
  refine ⟨trans_tainted hturn.trans htaint, ?_, ?_, ?_, fun k hk => ?_⟩
  · rw [hrec, hturn.enters.records, hS.records]
  · rw [hcount, hturn.enters.count, hS.count]
  · rw [hmcycle, hturn.enters.mcycle, hS.mcycle]
  · exact hS.started k (hturn.outside (fun _ => rfl) (not_starting hturn hI htaint) hk).2

end Turns

/-! ### Runs -/

/-- `current_mcycle` of the session. -/
def currentMcycle (w : Manager) : UInt64 :=
  (w.shared.session.map fun s => s.2.currentMcycle).getD 0

omit [Keccak] in
theorem currentMcycle_eq (w : Manager) : currentMcycle w = (View.of w.shared).mcycle := by
  unfold currentMcycle View.of
  cases w.shared.session with
  | none => rfl
  | some entry => rfl

/-- A world after one with a tainted session: the session is still tainted, no
    snapshot was requested in between, and neither the epochs, apart from the
    queries in them, nor the counters have changed. -/
structure TaintFinal (w w' : Manager) : Prop where
  tainted : sessionTainted w' = true
  started : ∀ h, AtSnapshot w' h → AtSnapshot w h
  epochs : ∀ i, (epochOf w' i).map clearQuery = (epochOf w i).map clearQuery
  count : processedCount w' = processedCount w
  mcycle : currentMcycle w' = currentMcycle w

/-- If this step taints the session, nobody is left inside
    `process_pending_inputs` with an input to process. -/
def TaintsIdle (w w' : Manager) : Prop :=
  sessionTainted w = false → sessionTainted w' = true →
    (pendingInputs w').length = 0 ∨ ∀ h < w'.next, ¬ InProcessing w' h

instance (w w' : Manager) : Decidable (TaintsIdle w w') :=
  inferInstanceAs (Decidable (_ → _ → _ ∨ ∀ h < w'.next, _))

/-- The events of a run, and the condition on its steps. -/
abbrev IdleTaintStep (w : Manager) (e : Event) (w' : Manager) : Prop :=
  e.only MachineRpc ∧ TaintsIdle w w'

theorem taintsIdle_phases {w w' : Manager} {φ' : HandlerId → Option Phase}
    (ha' : sessionProtocol.Abides w' φ') (hidle : TaintsIdle w w')
    (hclean : (View.of w.shared).tainted = false) (htaint : (View.of w'.shared).tainted = true) :
    (View.of w'.shared).inputs = [] ∨ ∀ k, ¬ PhaseIn Phase.processing φ' k := by
  rw [← sessionTainted_eq] at hclean htaint
  rcases hidle hclean htaint with hempty | hnone
  · rw [pendingInputs_eq] at hempty
    exact Or.inl (List.length_eq_zero_iff.1 hempty)
  · refine Or.inr fun k hk => ?_
    have hparked := (inProcessing_iff ha').2 hk
    exact hnone k (inSection_lt ha' hparked) hparked

theorem runs_taint {w₀ w : Manager} (hrun : Runs step IdleTaintStep w₀ w)
    (h₀ : Good TaintInv w₀) (hw : w.halted = none) : Good TaintInv w :=
  runs_good hrun (fun _ _ _ hc => legal_of_solo (solo_of_machine hc.1)) h₀
    (fun hc ha ha' hI hturn => turn_taint hturn hc.1 ha (taintsIdle_phases ha' hc.2) hI) hw

theorem runs_settled {w w' : Manager} (hrun : Runs step IdleTaintStep w w')
    {φ₁ : HandlerId → Option Phase} {v₁ : View}
    (h₀ : Good (fun φ v => TaintInv φ v ∧ Settled φ₁ v₁ φ v) w) (hw : w'.halted = none) :
    Good (fun φ v => TaintInv φ v ∧ Settled φ₁ v₁ φ v) w' := by
  refine runs_good hrun (fun _ _ _ hc => legal_of_solo (solo_of_machine hc.1)) h₀ ?_ hw
  intro w w' φ φ' e i rpc ph v₀ t hc ha ha' hI hturn
  exact ⟨turn_taint hturn hc.1 ha (taintsIdle_phases ha' hc.2) hI.1,
    settled_step hturn hc.1 ha hI.1 hI.2⟩

/-- In every run of AdvanceState and InspectState in which the session is tainted
    while nobody has an input to process, the taint is final. -/
theorem taint_final {hctx : HandlerContext} {session : SessionType}
    (hfresh : FreshSession hctx session) {w w' : Manager}
    (hrun : Runs step IdleTaintStep (idle hctx) w) (htaint : sessionTainted w = true)
    (hlater : Runs step IdleTaintStep w w') (hw' : w'.halted = none) : TaintFinal w w' := by
  rcases freshView_of hfresh with ⟨e₀, hv⟩
  have h₀ : Good TaintInv (idle hctx) := by
    refine good_idle ⟨session, hfresh.entry⟩ ⟨soloInv_fresh hv, fun _ => hv.lock, fun _ => ?_⟩
    exact Or.inr fun k hk => by cases hk
  rcases runs_taint hrun h₀ (runs_running hlater hw') with ⟨φ, ha, hI⟩
  have hS : Settled φ (View.of w.shared) φ (View.of w.shared) :=
    ⟨sessionTainted_eq w ▸ htaint, rfl, rfl, rfl, fun _ hk => hk⟩
  rcases runs_settled hlater ⟨φ, ha, hI, hS⟩ hw' with ⟨φ', ha', -, hS'⟩
  refine ⟨sessionTainted_eq w' ▸ hS'.tainted, fun h hh => ?_, fun i => ?_, ?_, ?_⟩
  · exact (atSnapshot_iff ha).2 (hS'.started h ((atSnapshot_iff ha').1 hh))
  · rw [epochOf_eq, epochOf_eq]
    exact congrFun hS'.records i
  · rw [processedCount_eq, processedCount_eq, hS'.count]
  · rw [currentMcycle_eq, currentMcycle_eq, hS'.mcycle]

end ServerManager

/-! ### On the sample session -/

namespace ServerManager

open Coroutine

attribute [local instance] keccak256

/-- Two inputs are accepted, a query is parked behind them, and the first input
    is processed. The snapshot of the query fails and taints the session. -/
def taintingEvents : List Event :=
  [.request (.advanceState (sampleRequest 0)), .answered 0,
    .request (.advanceState (sampleRequest 1)), .answered 1, .request (.inspectState []),
    .answered 0, .checkIn, .answered 3, .answered 0, .checkIn, .answered 4, .answered 0,
    .resumed, .failed 2]

/-- The first AdvanceState comes out of the completion queue and processes the
    second input. -/
def ignoringEvents : List Event :=
  [.resumed, .answered 0, .checkIn, .answered 5, .answered 0, .checkIn, .answered 6, .answered 0]

theorem taint_ignored : ∃ w w',
    Runs step (fun _ e _ => e.only MachineRpc) (idle sampleContext) w ∧ sessionTainted w = true ∧
      Runs step (fun _ e _ => e.only MachineRpc) w w' ∧ w'.halted = none ∧
      processedCount w = 1 ∧ processedCount w' = 2 ∧ ¬ TaintFinal w w' := by
  obtain ⟨w, hrun, hw⟩ : ∃ w,
      Runs step (fun _ e _ => e.only MachineRpc) (idle sampleContext) w ∧
        (sessionTainted w && processedCount w == 1 &&
          (play step (fun _ e _ => e.only MachineRpc) w ignoringEvents).any fun w' =>
            w'.halted.isNone && processedCount w' == 2) = true :=
    exists_run (fun _ e _ => e.only MachineRpc) taintingEvents (fun _ _ _ h => h)
      (by decide +kernel)
  simp only [Bool.and_eq_true, Option.any_eq_true, Option.isNone_iff_eq_none, beq_iff_eq] at hw
  rcases hw with ⟨⟨htaint, hone⟩, w', hplay, hhalt, htwo⟩
  refine ⟨w, w', hrun, htaint, runs_of_play (fun _ _ _ h => h) hplay, hhalt, hone, htwo,
    fun hfinal => ?_⟩
  have hcount := hfinal.count
  rw [hone, htwo] at hcount
  exact absurd hcount (by decide)

/-- The snapshot of the first input fails and taints the session. The input that
    was accepted behind it stays where it is. -/
theorem taint_final_sample : ∃ w w',
    Runs step IdleTaintStep (idle sampleContext) w ∧ Runs step IdleTaintStep w w' ∧
      sessionTainted w = true ∧ (pendingInputs w).length = 2 ∧ TaintFinal w w' := by
  obtain ⟨w, hrun, hw⟩ : ∃ w, Runs step IdleTaintStep (idle sampleContext) w ∧
      (sessionTainted w && (pendingInputs w).length == 2 &&
        (play step (fun w e w' => decide (IdleTaintStep w e w')) w
          [.request (.inspectState []), .request (.advanceState (sampleRequest 2)), .answered 2,
            .answered 3]).any fun w' => w'.halted.isNone) = true :=
    exists_run (fun w e w' => decide (IdleTaintStep w e w'))
      [.request (.advanceState (sampleRequest 0)), .answered 0,
        .request (.advanceState (sampleRequest 1)), .answered 1, .failed 0]
      (fun _ _ _ h => of_decide_eq_true h) (by decide +kernel)
  simp only [Bool.and_eq_true, Option.any_eq_true, Option.isNone_iff_eq_none, beq_iff_eq] at hw
  rcases hw with ⟨⟨htaint, htwo⟩, w', hplay, hhalt⟩
  have hlater : Runs step IdleTaintStep w w' :=
    runs_of_play (fun _ _ _ h => of_decide_eq_true h) hplay
  exact ⟨w, w', hrun, hlater, htaint, htwo,
    taint_final freshSession_sample hrun htaint hlater hhalt⟩

end ServerManager
