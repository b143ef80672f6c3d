import ServerManager.Theory.Epochs

/-!
# The Queue of Inputs

AdvanceState puts an input in the queue of the active epoch and answers. Only
after the acknowledgement does it look at the queue again, and it takes on the
work exactly if its input is alone there. `InputStep` is everything a segment
can do to the queue and to those who may work on it, for a session on which
nothing but AdvanceState, InspectState and the reports go on.

With AdvanceState alone, no input is stranded. The queue can only grow past one
while somebody works on it, or while nobody has been let in since the first
input; so whoever finds more than one input can leave the work to another.

## Main definitions

* `View.inputs`, `pendingInputs`: The queue of the active epoch.
* `SoloRpc`, `MachineRpc`, `SoloInv`: A session with one epoch.
* `InputStep`: What a segment does to the queue.
* `Attended`: Inputs in the queue are somebody's business.

## Theorems

* `trans_inputs`: Every step is an input step.
* `turn_attended`: A turn strands no input.
* `inputs_attended`: No run strands an input.
-/

namespace ServerManager

open Coroutine

variable [Keccak]

/-! ### The queue -/

/-- The inputs pending in the active epoch. -/
def View.inputs (v : View) : List InputType :=
  ((v.records v.active).map EpochType.pendingInputs).getD []

section Inputs

variable {v v' : View}

omit [Keccak] in
theorem inputs_of_record {e : EpochType} (he : v.records v.active = some e) :
    v.inputs = e.pendingInputs := by
  unfold View.inputs
  rw [he]
  rfl

omit [Keccak] in
theorem inputs_congr (hrec : v'.records = v.records) (hactive : v'.active = v.active) :
    v'.inputs = v.inputs := by
  unfold View.inputs
  rw [hrec, hactive]

omit [Keccak] in
theorem inputs_of_update {e : EpochType}
    (hrec : v'.records = Function.update v.records v.active (some e))
    (hactive : v'.active = v.active) : v'.inputs = e.pendingInputs := by
  refine inputs_of_record ?_
  rw [hrec, hactive, Function.update_self]

omit [Keccak] in
/-- The trees are not the queue. -/
theorem inputs_tree {index : UInt64} {g : EpochType → EpochType} (hg : TreeChange g)
    (hrec : v'.records = Function.update v.records index ((v.records index).map g))
    (hactive : v'.active = v.active) : v'.inputs = v.inputs := by
  unfold View.inputs
  rw [hrec, hactive]
  by_cases hi : v.active = index
  · rw [← hi, Function.update_self, Option.map_map]
    congr 2
    funext e
    exact (treeChange_state hg e).2.1
  · rw [Function.update_of_ne hi]

end Inputs

/-- The inputs pending in the active epoch of a world. -/
def pendingInputs (w : Manager) : List InputType :=
  ((epochOf w (activeEpoch w)).map EpochType.pendingInputs).getD []

omit [Keccak] in
theorem pendingInputs_eq (w : Manager) : pendingInputs w = (View.of w.shared).inputs := by
  unfold pendingInputs View.inputs View.records
  rw [activeEpoch_eq, epochOf_eq, Option.map_map]
  rfl

theorem Enters.inputs {w : Manager} {φ : HandlerId → Option Phase} {e : Event} {i : HandlerId}
    {rpc : Rpc} {ph : Phase} {v₀ : View} (henters : Enters w φ e i rpc ph v₀) :
    v₀.inputs = (View.of w.shared).inputs := inputs_congr henters.records henters.active

/-! ### A session with one epoch -/

/-- The RPCs that finish and delete no epoch. -/
def SoloRpc : Rpc → Bool
  | .advanceState _ | .inspectState _ | .getSessionStatus | .getEpochStatus _ | .checkIn _ => true
  | _ => false

omit [Keccak] in
theorem legal_of_solo {e : Event} (honly : e.only SoloRpc) : Legal e := by
  cases e with
  | arrive rpc peer fuel env => cases rpc <;> first | rfl | cases honly
  | _ => rfl

/-- AdvanceState and InspectState, and the CheckIn of the machine server. -/
def MachineRpc : Rpc → Bool
  | .advanceState _ | .inspectState _ | .checkIn _ => true
  | _ => false

omit [Keccak] in
theorem solo_of_machine {e : Event} (honly : e.only MachineRpc) : e.only SoloRpc := by
  cases e with
  | arrive rpc peer fuel env => cases rpc <;> first | rfl | cases honly
  | _ => rfl

/-- A handler that neither finishes nor deletes an epoch is about to run. -/
structure Solo (rpc : Rpc) (ph : Phase) : Prop where
  fresh : ph = .fresh → SoloRpc rpc = true ∨ ∃ a, rpc = .checkinDeadline a
  unstored : ∀ j, ph ≠ .storing j

omit [Keccak] in
theorem Solo.ne_finish {rpc : Rpc} (hsolo : Solo rpc .fresh) (request : FinishEpochRequest) :
    rpc ≠ .finishEpoch request := by
  rintro rfl
  rcases hsolo.fresh rfl with hallowed | ⟨a, ha⟩
  · cases hallowed
  · cases ha

omit [Keccak] in
theorem Solo.ne_delete {rpc : Rpc} (hsolo : Solo rpc .fresh) (index : UInt64) :
    rpc ≠ .deleteEpoch index := by
  rintro rfl
  rcases hsolo.fresh rfl with hallowed | ⟨a, ha⟩
  · cases hallowed
  · cases ha

/-- The epochs of a session on which none is finished or deleted. -/
structure SoloInv (φ : HandlerId → Option Phase) (v : View) : Prop where
  work : WorkInv φ v
  single : ∀ i e, v.records i = some e → i = v.active
  unstored : ∀ k j, φ k ≠ some (.storing j)

omit [Keccak] in
theorem soloInv_fresh {v : View} {e : EpochType} (hv : FreshView v e) :
    SoloInv (fun _ => none) v := by
  refine ⟨workInv_fresh hv, fun i e₁ h => ?_, fun k j h => (Option.some_ne_none _ h.symm).elim⟩
  rw [hv.records] at h
  rcases update_cases h with ⟨hi, -⟩ | ⟨-, h⟩
  · exact hi
  · cases h

/-- The active epoch stays the only one. -/
theorem single_step {rpc : Rpc} {ph : Phase} {v v' : View} (hstep : RecordStep rpc ph v v')
    (hsolo : Solo rpc ph) (hpresent : v.records v.active ≠ none) (hph : ph.Holds v)
    (hsingle : ∀ i e, v.records i = some e → i = v.active) :
    ∀ i e, v'.records i = some e → i = v'.active := by
  -- FinishEpoch is not there, neither at its start nor back from the store call
  have hready : ∀ {request e}, FinishReady request v e ph → rpc ≠ .finishEpoch request := by
    intro request e hr
    cases hr with
    | atOnce => exact hsolo.ne_finish request
    | afterStore => exact absurd rfl (hsolo.unstored _)
  have hupdate : ∀ {e' : Option EpochType},
      v'.records = Function.update v.records v.active e' → v'.active = v.active →
      ∀ i e, v'.records i = some e → i = v'.active := by
    intro e' hrec hactive i e h
    rw [hrec] at h
    rw [hactive]
    rcases update_cases h with ⟨hi, -⟩ | ⟨-, h⟩
    · exact hi
    · exact hsingle i e h
  cases hstep with
  | quiet hrec hactive =>
      rw [hrec, hactive]
      exact hsingle
  | tree hg hph' hrec hactive =>
      rw [hph'] at hph
      exact hupdate (hph.1 ▸ hrec) hactive
  | record hph' he hi hrec hactive =>
      rw [hph'] at hph
      exact hupdate (hph.1 ▸ hrec) hactive
  | accept _ _ _ _ _ _ _ _ _ _ hrec hactive => exact hupdate hrec hactive
  | delete hrpc hph' =>
      subst hph'
      exact absurd hrpc (hsolo.ne_delete _)
  | finish hrpc hr => exact absurd hrpc (hready hr)
  | spoil hrpc hr => exact absurd hrpc (hready hr)
  | missing he => exact absurd he hpresent

/-! ### What a segment does to the queue -/

/-- What a segment does to the queue, and to those who wait to look at it or
    work on it. -/
inductive InputStep (ph : Phase) (v : View) (t : Option Phase) (v' : View) : Prop
  /-- Nothing. -/
  | rest (hack : t.any Phase.ack = ph.ack) (hproc : t.any Phase.processing = ph.processing)
      (hin : v'.inputs = v.inputs)
  /-- An input is accepted. -/
  | accept (input : InputType) (hph : ph = .fresh) (ht : t = some (.accepted v.active))
      (hlock : v.lock = false) (htaint : v.tainted = false) (hset : v'.lock = true)
      (hin : v'.inputs = v.inputs ++ [input])
  /-- AdvanceState looks at the queue, and the work is not its own. -/
  | pass (hph : ph.ack = true) (hack : t.any Phase.ack = false)
      (hproc : t.any Phase.processing = false) (hin : v'.inputs = v.inputs)
      (hwhy : v.inputs.length ≠ 1 ∨ v'.tainted = true)
  /-- AdvanceState looks at the queue, and begins to work on it. -/
  | begin (hph : ph.ack = true) (hack : t.any Phase.ack = false)
      (hproc : t.any Phase.processing = true) (hin : v'.inputs = v.inputs)
      (hlock : v.lock = true) (hone : v.inputs.length = 1) (hfree : v.processing = false)
  /-- The work stops. -/
  | stop (hph : ph.processing = true) (hack : t.any Phase.ack = false)
      (hproc : t.any Phase.processing = false) (hin : v'.inputs = v.inputs)
      (hwhy : v'.tainted = true ∨ v.newStub = false ∨ v.inputs = [])
  /-- An input is done with, and the work goes on unless it was the last. -/
  | pop (hph : ph.processing = true) (hack : t.any Phase.ack = false)
      (hne : v.inputs ≠ []) (hin : v'.inputs = v.inputs.tail) (hcount : v'.count = v.count + 1)
      (hproc : t.any Phase.processing = true ∨ v'.inputs = [])

theorem taints_tainted {h : HandlerId} {v v' : View} {t : Option Phase} (ht : Taints h v t v') :
    v'.tainted = true ∧ t.any Phase.ack = false ∧ t.any Phase.processing = false := by
  cases ht with
  | quiet => exact ⟨rfl, rfl, rfl⟩
  | missing => exact ⟨rfl, rfl, rfl⟩
  | handOver => exact ⟨rfl, rfl, rfl⟩

omit [Keccak] in
/-- Recording an input removes it from the queue, whatever is done to the query. -/
theorem inputs_record {v v' : View} {index number : UInt64} {stage : Stage} {e : EpochType}
    {f g : EpochType → EpochType} (hph : (Phase.advancing index number stage).Holds v)
    (he : v.epochs index = some e) (hf : RecordChange number f) (hg : QueryOnly g)
    (hrec : v'.records = (v.mapEpoch index fun e => g (f e)).records)
    (hactive : v'.active = v.active) :
    v.inputs ≠ [] ∧ v'.inputs = v.inputs.tail ∧ v'.inputs = (f e).pendingInputs := by
  rcases hph with ⟨rfl, -, e', he', -, hpend⟩
  rcases records_record v _ number hf hg he with ⟨vt, nt, hash, x, -, hrec'⟩
  have hcleared := records_some he
  rw [hcleared] at he'
  cases he'
  have hold : v.inputs = (clearQuery e).pendingInputs := inputs_of_record hcleared
  have hnew : v'.inputs = e.pendingInputs.tail := inputs_of_update (hrec.trans hrec') hactive
  refine ⟨hold ▸ hpend, hold ▸ hnew, ?_⟩
  rcases hf e with ⟨y, -, hfe⟩
  rw [hnew, hfe]

omit [Keccak] in
theorem starts_inputs {h : HandlerId} {rpc : Rpc} {ph ph' : Phase} {v v' : View}
    (hs : Starts h rpc ph v ph' v')
    (hsingle : ∀ i e, v.records i = some e → i = v.active) (hph : ph.Holds v) :
    InputStep ph v (some ph') v' := by
  cases hs with
  | accepted hlock he hlen hproc =>
      have hrec := records_some he
      rw [hsingle _ _ hrec] at hrec
      exact .begin rfl rfl rfl rfl hlock (inputs_of_record hrec ▸ hlen) hproc
  | handedOff => exact .rest rfl rfl rfl
  | @recorded _ _ index number stage e f _ he hf hq hpend =>
      rcases inputs_record hph he hf (fun _ => rfl) rfl rfl with ⟨hne, hin, -⟩
      exact .pop rfl rfl hne hin rfl (Or.inl rfl)
  | inspect => exact .rest rfl rfl (inputs_congr (records_queryOnly _ _ (queryOnly_set _)) rfl)
  | queued _ _ _ hf =>
      exact .rest rfl rfl (inputs_congr (records_queryOnly _ _ (queryOnly_of_change hf)) rfl)

/-- Every step of a session with one epoch is an input step. -/
theorem trans_inputs {h : HandlerId} {rpc : Rpc} {ph : Phase} {v v' : View} {t : Option Phase}
    (hstep : Trans h rpc ph v t v') (hsolo : Solo rpc ph)
    (hpresent : v.records v.active ≠ none)
    (hsingle : ∀ i e, v.records i = some e → i = v.active) (hph : ph.Holds v) :
    InputStep ph v t v' := by
  cases hstep with
  | delete => exact absurd rfl (hsolo.ne_delete _)
  | store => exact absurd rfl (hsolo.ne_finish _)
  | finish => exact absurd rfl (hsolo.ne_finish _)
  | stored => exact absurd rfl (hsolo.unstored _)
  | storeFailed => exact absurd rfl (hsolo.unstored _)
  | start hs => exact starts_inputs hs hsingle hph
  | @accept request _ e input hlock htaint hindex he =>
      refine .accept input rfl rfl hlock htaint rfl ?_
      have hnew : (v.mapEpoch v.active fun e => { e with
          pendingInputs := e.pendingInputs ++ [input] }).records v.active =
          some (clearQuery { e with pendingInputs := e.pendingInputs ++ [input] }) := by
        rw [records_mapEpoch, Function.update_self, he]
        rfl
      rw [inputs_of_record (records_some he)]
      exact inputs_of_record hnew
  | acceptedIdle hlock he hlen =>
      have hrec := records_some he
      rw [hsingle _ _ hrec] at hrec
      exact .pass rfl rfl rfl rfl (Or.inl (inputs_of_record hrec ▸ hlen))
  | acceptedTaint hwhy ht =>
      rcases taints_tainted ht with ⟨htaint, hack, hproc⟩
      rcases taints_records ht with he | ⟨hrec, hactive, -⟩
      · exact absurd he hpresent
      · exact .pass rfl hack hproc (inputs_congr hrec hactive) (Or.inr htaint)
  | @advance _ _ index _ _ _ _ _ hf hw =>
      rcases records_tree v index hf with ⟨g, hg, hrec⟩
      exact .rest rfl rfl (inputs_tree hg hrec rfl)
  | @advanceTaint _ _ _ index _ _ _ _ hf ht =>
      rcases records_tree v index hf with ⟨g, hg, htree⟩
      rcases taints_tainted ht with ⟨htaint, hack, hproc⟩
      rcases taints_records ht with he | ⟨hrec, hactive, -⟩
      · rcases hph with ⟨hi, -, e, hrec, -⟩
        have he' : (v.mapEpoch index _).records v.active = none := he
        rw [htree, ← hi, Function.update_self, hrec] at he'
        cases he'
      · exact .stop rfl hack hproc (inputs_tree hg (hrec.trans htree) hactive) (Or.inl htaint)
  | @advanceFail _ _ index _ _ _ _ hf hstub =>
      rcases records_tree v index hf with ⟨g, hg, hrec⟩
      exact .stop rfl rfl rfl (inputs_tree hg hrec rfl) (Or.inr (Or.inl hstub.stub))
  | advancePark he hf hq =>
      rcases inputs_record hph he hf (queryOnly_coroutine h) rfl rfl with ⟨hne, hin, -⟩
      exact .pop rfl rfl hne hin rfl (Or.inl rfl)
  | advanceExit he hf hq hpend =>
      rcases inputs_record hph he hf (fun _ => rfl) rfl rfl with ⟨hne, hin, hlast⟩
      exact .pop rfl rfl hne hin rfl (Or.inr (hlast.trans hpend))
  | handedExit he hpend =>
      have hrec := records_some he
      rw [hsingle _ _ hrec] at hrec
      exact .stop rfl rfl rfl rfl (Or.inr (Or.inr ((inputs_of_record hrec).trans hpend)))
  | queue => exact .rest rfl rfl (inputs_congr (records_queryOnly _ _ (queryOnly_set _)) rfl)
  | queuedQuick => exact .rest rfl rfl (inputs_congr (records_queryOnly _ _ queryOnly_clear) rfl)
  | queuedRefuse =>
      rcases wake_records v _ with ⟨hrec, hactive, -⟩
      exact .rest rfl rfl (inputs_congr hrec hactive)
  | inspect hf =>
      exact .rest rfl rfl (inputs_congr (records_queryOnly _ _ (queryOnly_of_change hf)) rfl)
  | @inspectFail _ _ index coroutine _ _ f _ hf =>
      rcases wake_records (v.mapEpoch index f) coroutine with ⟨hrec, hactive, -⟩
      have hsame := records_queryOnly v index (queryOnly_of_change hf)
      exact .rest rfl rfl (inputs_congr (hrec.trans hsame) hactive)
  | inspectDone => exact .rest rfl rfl (inputs_congr (records_queryOnly _ _ queryOnly_clear) rfl)
  | inspected =>
      rcases wake_records v _ with ⟨hrec, hactive, -⟩
      exact .rest rfl rfl (inputs_congr hrec hactive)
  | _ => exact .rest rfl rfl rfl

section Turns

variable {w : Manager} {φ φ' : HandlerId → Option Phase} {e : Event} {i : HandlerId} {rpc : Rpc}
  {ph : Phase} {v₀ v' : View} {t : Option Phase}

theorem SoloInv.solo (hI : SoloInv φ (View.of w.shared)) (honly : e.only SoloRpc)
    (ha : sessionProtocol.Abides w φ) (henters : Enters w φ e i rpc ph v₀) : Solo rpc ph := by
  refine ⟨henters.only ha honly, ?_⟩
  rintro j rfl
  exact hI.unstored i j (henters.parked Phase.noConfusion)

theorem SoloInv.single_enter (hI : SoloInv φ (View.of w.shared))
    (henters : Enters w φ e i rpc ph v₀) :
    ∀ j epoch, v₀.records j = some epoch → j = v₀.active := by
  rw [henters.records, henters.active]
  exact hI.single

theorem turn_solo (hturn : Turn w φ e i rpc ph v₀ t φ' v') (honly : e.only SoloRpc)
    (ha : sessionProtocol.Abides w φ) (hI : SoloInv φ (View.of w.shared)) : SoloInv φ' v' := by
  have hsolo := hI.solo honly ha hturn.enters
  rcases hI.work.enter hturn.enters with ⟨hv₀, hph⟩
  refine ⟨turn_work hturn hI.work fun k _ j hφ => absurd hφ (hI.unstored k j), ?_, ?_⟩
  · exact single_step (trans_records hturn.trans) hsolo hv₀.epochs.present hph
      (hI.single_enter hturn.enters)
  · refine turn_unstored hturn (fun hfresh request hreq => ?_) hI.unstored
    subst hfresh
    exact absurd hreq (hsolo.ne_finish request)

/-- What a turn does to the queue. -/
theorem turn_inputs (hturn : Turn w φ e i rpc ph v₀ t φ' v') (honly : e.only SoloRpc)
    (ha : sessionProtocol.Abides w φ) (hI : SoloInv φ (View.of w.shared)) :
    InputStep ph v₀ t v' := by
  rcases hI.work.enter hturn.enters with ⟨hv₀, hph⟩
  exact trans_inputs hturn.trans (hI.solo honly ha hturn.enters) hv₀.epochs.present
    (hI.single_enter hturn.enters) hph

end Turns

/-! ### No input is stranded -/

/-- AdvanceState, and the CheckIn of the machine server. -/
def AdvanceRpc : Rpc → Bool
  | .advanceState _ | .checkIn _ => true
  | _ => false

omit [Keccak] in
theorem solo_of_advance {e : Event} (honly : e.only AdvanceRpc) : e.only SoloRpc := by
  cases e with
  | arrive rpc peer fuel env => cases rpc <;> first | rfl | cases honly
  | _ => rfl

/-- `Machine::NewStub` does not return null in this event. -/
def Event.stubs (e : Event) : Bool := e.env.all fun env => env.newStub

/-- Inputs in the queue are the business of a handler: of the one that works on
    them, or of the one that was let in for the first of them and keeps others
    out until it looks at the queue. -/
def Attended (φ : HandlerId → Option Phase) (v : View) : Prop :=
  v.tainted = false → (∃ k, PhaseIn Phase.processing φ k) ∨ v.inputs = [] ∨
    (v.inputs.length = 1 ∧ v.lock = true ∧ ∃ k, PhaseIn Phase.ack φ k)

/-- A session that only AdvanceState is called on. -/
structure AdvanceInv (φ : HandlerId → Option Phase) (v : View) : Prop where
  solo : SoloInv φ v
  /-- Who holds the lock waits for an acknowledgement. -/
  alone : ∀ k, PhaseIn Phase.critical φ k → PhaseIn Phase.ack φ k
  attended : Attended φ v

/-- AdvanceState holds the lock only before the acknowledgement. -/
theorem trans_alone {h : HandlerId} {rpc : Rpc} {ph : Phase} {v v' : View} {t : Option Phase}
    (hstep : Trans h rpc ph v t v')
    (hrpc : ph = .fresh → AdvanceRpc rpc = true ∨ ∃ a, rpc = .checkinDeadline a)
    (halone : ph.critical = true → ph.ack = true) (hcrit : t.any Phase.critical = true) :
    t.any Phase.ack = true := by
  -- no other handler is there, so no other one is let in
  have hnone : ∀ {p : Prop}, ph = .fresh → AdvanceRpc rpc = false →
      (∀ a, rpc ≠ .checkinDeadline a) → p := by
    intro p hfresh hrefuse hdeadline
    rcases hrpc hfresh with hallowed | ⟨a, ha⟩
    · rw [hrefuse] at hallowed
      cases hallowed
    · exact absurd ha (hdeadline a)
  cases hstep with
  | report hreport =>
      rcases hreport with rfl | ⟨index, rfl⟩
      · exact hnone rfl rfl fun _ => Rpc.noConfusion
      · exact hnone rfl rfl fun _ => Rpc.noConfusion
  | delete => exact hnone rfl rfl fun _ => Rpc.noConfusion
  | store => exact hnone rfl rfl fun _ => Rpc.noConfusion
  | finish => exact hnone rfl rfl fun _ => Rpc.noConfusion
  | stored => cases halone rfl
  | start hs =>
      cases hs with
      | accepted => cases hcrit
      | handedOff => cases hcrit
      | recorded => cases hcrit
      | inspect => exact hnone rfl rfl fun _ => Rpc.noConfusion
      | queued => cases halone rfl
  | accept => rfl
  | acceptedTaint hwhy ht =>
      rw [(taints_lock ht).2.1] at hcrit
      cases hcrit
  | advanceTaint hf ht =>
      rw [(taints_lock ht).2.1] at hcrit
      cases hcrit
  | queue => exact hnone rfl rfl fun _ => Rpc.noConfusion
  | inspectQuick => exact hnone rfl rfl fun _ => Rpc.noConfusion
  | queuedQuick => cases halone rfl
  | inspect => cases halone rfl
  | inspectDone => cases halone rfl
  | _ => cases hcrit

/-- A tainted session stays so. -/
theorem trans_tainted {h : HandlerId} {rpc : Rpc} {ph : Phase} {v v' : View} {t : Option Phase}
    (hstep : Trans h rpc ph v t v') (htaint : v.tainted = true) : v'.tainted = true := by
  cases hstep with
  | finish _ htaint' => rw [htaint] at htaint'; cases htaint'
  | stored he hf => cases hf <;> exact htaint
  | start hs => cases hs <;> exact htaint
  | acceptedTaint hwhy ht => exact (taints_tainted ht).1
  | advanceTaint hf ht => exact (taints_tainted ht).1
  | @queuedRefuse _ _ _ _ q => cases hc : q.coroutine <;> exact htaint
  | inspectFail => exact Bool.or_eq_true_iff.2 (Or.inl htaint)
  | @inspected _ _ coroutine => cases coroutine <;> exact htaint
  | _ => exact htaint

section Turns

variable {w : Manager} {φ φ' : HandlerId → Option Phase} {e : Event} {i : HandlerId} {rpc : Rpc}
  {ph : Phase} {v₀ v' : View} {t : Option Phase}

omit [Keccak] in
theorem ack_critical {t : Option Phase} (hack : t.any Phase.ack = true) :
    t.any Phase.critical = true := by
  rcases t with - | ph
  · cases hack
  · cases ph <;> first | rfl | cases hack

omit [Keccak] in
theorem ack_not_processing {ph : Phase} (hack : ph.ack = true) : ph.processing = false := by
  cases ph <;> first | rfl | cases hack

/-- Somebody is in a section before a turn, and nobody leaves it. -/
theorem Turn.somebody (hturn : Turn w φ e i rpc ph v₀ t φ' v') {b : Phase → Bool}
    (hfresh : b .fresh = false) (hcheck : ∀ g, b (.checkedIn g) = false)
    (hstay : b ph = true → t.any b = true) (hsome : ∃ k, PhaseIn b φ k) :
    ∃ k, PhaseIn b φ' k := by
  rcases hsome with ⟨k, hk⟩
  refine ⟨k, ?_⟩
  by_cases hki : k = i
  · rw [hki, hturn.inside]
    exact hstay ((hturn.enters.inside hfresh).1 (hki ▸ hk))
  · exact (hturn.elsewhere hcheck hki).2 hk

/-- A turn that leaves everything to others leaves the lock with whoever waits
    for an acknowledgement. -/
theorem lock_rest (hturn : Turn w φ e i rpc ph v₀ t φ' v')
    (halone : ∀ k, PhaseIn Phase.critical φ k → PhaseIn Phase.ack φ k)
    (hack : t.any Phase.ack = ph.ack) (hproc : t.any Phase.processing = ph.processing)
    (hlock : v₀.lock = true) : v'.lock = true := by
  cases trans_lock hturn.trans with
  | keeps hflag => rw [hflag, hlock]
  | acquires hfree hset => exact hset
  | releases hflag hout hwhy =>
      exfalso
      rcases hwhy with hcrit | ⟨hin, hleft⟩
      · -- the handler held the lock, so it waited for an acknowledgement, and still does
        have hwas := halone i ((hturn.enters.inside rfl).2 hcrit)
        rw [hturn.enters.inside rfl] at hwas
        rw [← hack] at hwas
        rw [ack_critical hwas] at hout
        cases hout
      · rw [hproc, hin] at hleft
        cases hleft

/-- A turn strands no input. -/
theorem turn_attended (hturn : Turn w φ e i rpc ph v₀ t φ' v') (honly : e.only AdvanceRpc)
    (hstubs : e.stubs) (ha : sessionProtocol.Abides w φ)
    (hI : AdvanceInv φ (View.of w.shared)) : Attended φ' v' := by
  intro huntainted
  have htaint : (View.of w.shared).tainted = false := by
    by_contra htainted
    rw [Bool.not_eq_false, ← hturn.enters.tainted] at htainted
    rw [trans_tainted hturn.trans htainted] at huntainted
    cases huntainted
  have hbefore := hI.attended htaint
  rw [← hturn.enters.inputs, ← hturn.enters.lock] at hbefore
  cases turn_inputs hturn (solo_of_advance honly) ha hI.solo with
  | rest hack hproc hin =>
      rw [hin]
      rcases hbefore with hsome | hempty | ⟨hone, hlock, hsome⟩
      · exact Or.inl (hturn.somebody rfl (fun _ => rfl) (fun h => hproc.trans h) hsome)
      · exact Or.inr (Or.inl hempty)
      · refine Or.inr (Or.inr ⟨hone, lock_rest hturn hI.alone hack hproc hlock, ?_⟩)
        exact hturn.somebody rfl (fun _ => rfl) (fun h => hack.trans h) hsome
  | accept input hph ht hlock _ hset hin =>
      subst hph
      rcases hbefore with hsome | hempty | ⟨-, hlocked, -⟩
      · exact Or.inl (hturn.somebody rfl (fun _ => rfl) (fun h => absurd h Bool.false_ne_true) hsome)
      · refine Or.inr (Or.inr ⟨by rw [hin, hempty]; rfl, hset, i, ?_⟩)
        rw [hturn.inside, ht]
        rfl
      · rw [hlock] at hlocked
        cases hlocked
  | pass hph hack hproc hin hwhy =>
      rw [hin]
      rcases hbefore with hsome | hempty | ⟨hone, -, -⟩
      · refine Or.inl (hturn.somebody rfl (fun _ => rfl) (fun h => ?_) hsome)
        rw [ack_not_processing hph] at h
        cases h
      · exact Or.inr (Or.inl hempty)
      · rcases hwhy with hmany | htainted
        · exact absurd hone hmany
        · rw [htainted] at huntainted
          cases huntainted
  | begin hph hack hproc => exact Or.inl ⟨i, hturn.inside.2 hproc⟩
  | stop hph hack hproc hin hwhy =>
      rw [hin]
      rcases hwhy with htainted | hstub | hempty
      · rw [htainted] at huntainted
        cases huntainted
      · rcases hturn.enters.stub with ⟨env, henv, hnew⟩
        unfold Event.stubs at hstubs
        rw [henv, Option.all_some, ← hnew, hstub] at hstubs
        cases hstubs
      · exact Or.inr (Or.inl hempty)
  | pop hph hack hne hin hcount hproc =>
      rcases hproc with hgoes | hlast
      · exact Or.inl ⟨i, hturn.inside.2 hgoes⟩
      · exact Or.inr (Or.inl hlast)

theorem turn_advance (hturn : Turn w φ e i rpc ph v₀ t φ' v') (honly : e.only AdvanceRpc)
    (hstubs : e.stubs) (ha : sessionProtocol.Abides w φ)
    (hI : AdvanceInv φ (View.of w.shared)) : AdvanceInv φ' v' := by
  refine ⟨turn_solo hturn (solo_of_advance honly) ha hI.solo, fun k hk => ?_,
    turn_attended hturn honly hstubs ha hI⟩
  by_cases hki : k = i
  · rw [hki, hturn.inside] at hk ⊢
    refine trans_alone hturn.trans (hturn.enters.only ha honly) (fun hcrit => ?_) hk
    exact (hturn.enters.inside rfl).1 (hI.alone i ((hturn.enters.inside rfl).2 hcrit))
  · rw [hturn.elsewhere (fun _ => rfl) hki] at hk ⊢
    exact hI.alone k hk

end Turns

/-- `tainted` of the session. -/
def sessionTainted (w : Manager) : Bool := (w.shared.session.map fun s => s.2.tainted).getD false

omit [Keccak] in
theorem sessionTainted_eq (w : Manager) : sessionTainted w = (View.of w.shared).tainted := by
  unfold sessionTainted View.of
  cases w.shared.session with
  | none => rfl
  | some entry => rfl

/-- AdvanceState is parked, wherever it is. -/
abbrev InAdvance : Manager → HandlerId → Prop :=
  InSection fun rpc _ => match rpc with
    | .advanceState _ => true
    | _ => false

omit [Keccak] in
theorem inSection_mono {p q : Rpc → Op → Bool} (hpq : ∀ rpc op, p rpc op = true → q rpc op = true)
    {w : Manager} {h : HandlerId} (hh : InSection p w h) : InSection q w h := by
  unfold InSection at hh ⊢
  cases hp : w.handlers h with
  | none => rw [hp] at hh; cases hh
  | some s =>
      rw [hp] at hh
      exact hpq _ _ hh

/-- In a session that is not tainted, an input that was accepted is processed,
    or an AdvanceState is still there. -/
theorem inputs_attended {hctx : HandlerContext} {session : SessionType}
    (hfresh : FreshSession hctx session) {w : Manager}
    (hrun : Runs step (fun _ e _ => e.only AdvanceRpc ∧ e.stubs) (idle hctx) w)
    (hw : w.halted = none) (huntainted : sessionTainted w = false)
    (hnobody : ∀ h < w.next, ¬ InAdvance w h) :
    ∃ e, epochOf w (activeEpoch w) = some e ∧ e.pendingInputs = [] := by
  rcases freshView_of hfresh with ⟨e₀, hv⟩
  have h₀ : Good AdvanceInv (idle hctx) := by
    refine good_idle ⟨session, hfresh.entry⟩ ⟨soloInv_fresh hv, fun k hk => ?_, fun _ => ?_⟩
    · cases hk
    · exact Or.inr (Or.inl (by rw [inputs_of_record (by rw [hv.records, Function.update_self])]
                               exact hv.pending))
  rcases runs_good hrun (fun _ _ _ hc => legal_of_solo (solo_of_advance hc.1)) h₀
    (fun hc ha _ hI hturn => turn_advance hturn hc.1 hc.2 ha hI) hw with ⟨φ, ha, hI⟩
  have hgone : ∀ {point : Rpc → Op → Bool} {k : HandlerId},
      (∀ rpc op, point rpc op = true → ∃ request, rpc = .advanceState request) →
      ¬ InSection point w k := by
    intro point k hpoint hk
    refine hnobody k (inSection_lt ha hk) (inSection_mono (fun rpc op h => ?_) hk)
    rcases hpoint rpc op h with ⟨request, rfl⟩
    rfl
  have hempty : pendingInputs w = [] := by
    rw [sessionTainted_eq] at huntainted
    rw [pendingInputs_eq]
    rcases hI.attended huntainted with ⟨k, hk⟩ | hempty | ⟨-, -, k, hk⟩
    · refine absurd ((inProcessing_iff ha).2 hk) (hgone fun rpc op h => ?_)
      cases rpc <;> first | exact ⟨_, rfl⟩ | cases h
    · exact hempty
    · refine absurd ((awaitsAck_iff ha).2 hk) (hgone fun rpc op h => ?_)
      cases rpc <;> first | exact ⟨_, rfl⟩ | cases h
  have hpresent := hI.solo.work.epochs.present
  rw [← activeEpoch_eq] at hpresent
  unfold View.records at hpresent
  rw [← epochOf_eq] at hpresent
  unfold pendingInputs at hempty
  cases he : epochOf w (activeEpoch w) with
  | none => rw [he] at hpresent; exact absurd rfl hpresent
  | some epoch =>
      rw [he] at hempty
      exact ⟨epoch, rfl, hempty⟩

end ServerManager

/-! ### On the sample session -/

namespace ServerManager

open Coroutine

attribute [local instance] keccak256

/-- Two inputs are accepted. The second AdvanceState finds two inputs in the
    queue and leaves them to the first, which processes both. -/
theorem inputs_attended_sample : ∃ w,
    Runs step (fun _ e _ => e.only AdvanceRpc ∧ e.stubs) (idle sampleContext) w ∧
      processedCount w = 2 ∧ ∃ e, epochOf w (activeEpoch w) = some e ∧ e.pendingInputs = [] := by
  obtain ⟨w, hrun, hw⟩ : ∃ w,
      Runs step (fun _ e _ => e.only AdvanceRpc ∧ e.stubs) (idle sampleContext) w ∧
        (w.halted.isNone && !sessionTainted w && processedCount w == 2 &&
          decide (∀ h < w.next, ¬ InAdvance w h)) = true :=
    exists_run (fun _ e _ => decide (e.only AdvanceRpc ∧ e.stubs))
      [.request (.advanceState (sampleRequest 0)), .answered 0,
        .request (.advanceState (sampleRequest 1)), .answered 1,
        .answered 0, .checkIn, .answered 2, .answered 0, .checkIn, .answered 3, .answered 0,
        .answered 0, .checkIn, .answered 4, .answered 0, .checkIn, .answered 5, .answered 0]
      (fun _ _ _ h => of_decide_eq_true h) (by decide +kernel)
  simp only [Bool.and_eq_true, Option.isNone_iff_eq_none, Bool.not_eq_true', beq_iff_eq,
    decide_eq_true_eq] at hw
  rcases hw with ⟨⟨⟨hhalt, htaint⟩, hcount⟩, hnobody⟩
  exact ⟨w, hrun, hcount, inputs_attended freshSession_sample hrun hhalt htaint hnobody⟩

end ServerManager
