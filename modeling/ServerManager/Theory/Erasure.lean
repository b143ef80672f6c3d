import ServerManager.Theory.Frozen
import ServerManager.Theory.HandOver

/-!
# References to Epochs

AdvanceState, InspectState and FinishEpoch keep a reference to an epoch across
their suspensions, and DeleteEpoch erases epochs. Nothing counts the references.
What protects them is the session lock, for the handlers that hold it, and the
input in the queue, for the one that works on it: the epoch is then the active
one, and DeleteEpoch does not touch that.

AdvanceState between two inputs has neither. It is parked until a query is done,
and in the meantime its epoch can be finished, if the input before was the last,
and deleted. `KeepsHandedOff` is that this does not happen in a step.

## Main definitions

* `Phase.Backed`: What a parked handler refers to is there.
* `KeepsHandedOff`: No epoch is erased under an AdvanceState between two inputs.
* `ErasureInv`: The invariant.

## Theorems

* `not_lost`: A handler that is backed loses nothing.
* `trans_backed`: A handler parks in a phase that is backed.
* `trans_outside`: What a handler without the lock leaves alone.
* `turn_erasure`: A turn keeps the invariant.
* `epoch_references_valid`: No run that keeps the epochs of those between two
  inputs uses an epoch that was erased.
* `handed_off_epoch_erased`: An epoch erased under an AdvanceState.
-/

namespace ServerManager

open Coroutine

variable [Keccak]

/-! ### What a parked handler refers to -/

/-- What a parked handler refers to is there. Who holds the lock refers to the
    active epoch, and InspectState also to the query in it. For FinishEpoch in
    the store call and for AdvanceState inside a transaction that is part of
    `Phase.Holds`. -/
def Phase.Backed (v : View) : Phase → Prop
  | .accepted index => index = v.active
  | .handedOff index => v.records index ≠ none
  | .queued index => index = v.active ∧ v.holder ≠ none
  | .inspecting index _ _ => index = v.active ∧ v.holder ≠ none
  | _ => True

omit [Keccak] in
theorem records_none {v : View} {index : UInt64} (he : v.epochs index = none) :
    v.records index = none := by
  unfold View.records
  rw [he]
  rfl

omit [Keccak] in
/-- There is a query in the active epoch. -/
theorem holder_ne_none {v : View} {e : EpochType} (he : v.epochs v.active = some e) :
    v.holder ≠ none ↔ e.pendingQuery ≠ none := by
  rw [holder_of he, ne_eq, ne_eq, Option.map_eq_none_iff]

omit [Keccak] in
/-- A handler that is backed loses nothing. -/
theorem not_lost {v : View} {ph : Phase} (hI : EpochsOk v.records v.active v.notes)
    (hholds : ph.Holds v) (hback : ph.Backed v) : ¬ Lost v ph := by
  have hpresent : v.epochs v.active ≠ none := fun he => hI.present (records_none he)
  intro hlost
  cases hlost with
  | @epoch index hph he =>
      cases ph with
      | storing j =>
          cases hph
          rcases hholds with ⟨rfl, -⟩
          exact hpresent he
      | accepted j =>
          cases hph
          exact hpresent (hback ▸ he)
      | advancing j number stage =>
          cases hph
          rcases hholds with ⟨rfl, -⟩
          exact hpresent he
      | handedOff j =>
          cases hph
          exact hback (records_none he)
      | queued j =>
          cases hph
          exact hpresent (hback.1 ▸ he)
      | inspecting j coroutine stage =>
          cases hph
          exact hpresent (hback.1 ▸ he)
      | _ => cases hph
  | @query index e hph hask he hq =>
      cases ph with
      | queued j =>
          cases hph
          exact (holder_ne_none (hback.1 ▸ he)).1 hback.2 hq
      | inspecting j coroutine stage =>
          cases hph
          exact (holder_ne_none (hback.1 ▸ he)).1 hback.2 hq
      | _ => cases hask

/-! ### A handler parks with what it refers to -/

omit [Keccak] in
theorem starts_backed {h : HandlerId} {rpc : Rpc} {ph ph' : Phase} {v v' : View}
    (hs : Starts h rpc ph v ph' v') (hback : ph.Backed v) : ph'.Backed v' := by
  cases hs with
  | accepted => trivial
  | handedOff => trivial
  | recorded => trivial
  | @inspect _ _ e q hlock htaint he hq hpend hco =>
      refine ⟨rfl, ?_⟩
      have hh : (v.mapEpoch v.active (setQuery q)).holder = some q.coroutine := holder_active _ he
      exact fun hnone => Option.some_ne_none _ (hh.symm.trans hnone)
  | @queued _ _ index e q f htaint he hq hf =>
      refine ⟨hback.1, ?_⟩
      rw [holder_query v index hf]
      exact hback.2

/-- The phase a handler parks in is backed. -/
theorem trans_backed {h : HandlerId} {rpc : Rpc} {ph : Phase} {v v' : View} {t : Option Phase}
    (hstep : Trans h rpc ph v t v') (hback : ph.Backed v) :
    ∀ ph', t = some ph' → ph'.Backed v' := by
  intro ph' ht
  cases hstep with
  | finish _ _ _ _ _ _ _ hf => cases ht; cases hf <;> trivial
  | stored _ hf => cases ht; cases hf <;> trivial
  | start hs => cases ht; exact starts_backed hs hback
  | accept => cases ht; rfl
  | acceptedTaint _ htaint => cases htaint <;> cases ht; trivial
  | advanceTaint _ htaint => cases htaint <;> cases ht; trivial
  | @advancePark _ _ index number _ e q f _ he hf hq =>
      cases ht
      have hrec : (v.mapEpoch index fun e => setCoroutine h (f e)).records index =
          some (clearQuery (setCoroutine h (f e))) := by
        refine records_some ?_
        simp only [View.mapEpoch, Function.update_self, he, Option.map_some]
      exact fun hnone => Option.some_ne_none _ (hrec.symm.trans hnone)
  | @queue _ _ e q hlock htaint he hq hpend hco =>
      cases ht
      refine ⟨rfl, ?_⟩
      have hh : (v.mapEpoch v.active (setQuery q)).holder = some q.coroutine := holder_active _ he
      exact fun hnone => Option.some_ne_none _ (hh.symm.trans hnone)
  | @inspect _ _ index coroutine stage stage' f _ hf hw =>
      cases ht
      refine ⟨hback.1, ?_⟩
      have hh : (v.mapEpoch index f).holder = v.holder := holder_query v index hf
      exact fun hnone => hback.2 (hh.symm.trans hnone)
  | _ => cases ht <;> trivial

/-! ### Others leave it alone -/

omit [Keccak] in
/-- A change of an epoch that removes no query. -/
theorem holder_mapEpoch_ne {v : View} (index : UInt64) {f : EpochType → EpochType}
    (hf : ∀ e, e.pendingQuery ≠ none → (f e).pendingQuery ≠ none) (hh : v.holder ≠ none) :
    (v.mapEpoch index f).holder ≠ none := by
  unfold View.holder View.mapEpoch at *
  by_cases hi : v.active = index
  · simp only [hi, Function.update_self] at hh ⊢
    cases he : v.epochs index with
    | none => rw [he] at hh; exact hh
    | some e =>
        rw [he, ne_eq, Option.map_eq_none_iff] at hh
        rw [Option.map_some, ne_eq, Option.map_eq_none_iff]
        exact hf e hh
  · simp only [Function.update_of_ne hi]
    exact hh

/-- The part of a view that handlers without the lock do not change. -/
structure Outside (v v' : View) : Prop where
  active : v'.active = v.active
  holder : v.holder ≠ none → v'.holder ≠ none

theorem taints_outside {h : HandlerId} {v v₁ v' : View} {t : Option Phase} (ht : Taints h v₁ t v')
    (hpresent : v₁.epochs v₁.active ≠ none) (hv : Outside v v₁) : Outside v v' := by
  cases ht with
  | quiet => exact ⟨hv.active, hv.holder⟩
  | missing he => exact absurd he hpresent
  | @handOver e q he hq =>
      have hset : ∀ e : EpochType, e.pendingQuery ≠ none →
          (setCoroutine h e).pendingQuery ≠ none :=
        fun e he hnone => he (Option.map_eq_none_iff.1 hnone)
      exact ⟨hv.active, fun hh => holder_mapEpoch_ne v₁.active hset (hv.holder hh)⟩

omit [Keccak] in
theorem outside_tree (v : View) (index : UInt64) {f : EpochType → EpochType} (hf : TreeChange f) :
    Outside v (v.mapEpoch index f) :=
  ⟨rfl, fun hh => by rw [holder_tree v index hf]; exact hh⟩

omit [Keccak] in
theorem outside_record (v : View) (index : UInt64) {number : UInt64}
    {f : EpochType → EpochType} (hf : RecordChange number f) : Outside v (v.mapEpoch index f) :=
  ⟨rfl, fun hh => by rw [holder_record v index hf]; exact hh⟩

/-- A handler that finds the session locked by another leaves the active epoch
    the active one, and the query in it. -/
theorem trans_outside {h : HandlerId} {rpc : Rpc} {ph : Phase} {v v' : View} {t : Option Phase}
    (hstep : Trans h rpc ph v t v') (hlock : v.lock = true) (hph : ph.critical = false)
    (hpresent : v.epochs v.active ≠ none) : Outside v v' := by
  have hlocked : ∀ {p : Prop}, v.lock = false → p := fun hfree => by
    rw [hlock] at hfree
    cases hfree
  cases hstep with
  | report _ hfree => exact hlocked hfree
  | delete hfree => exact hlocked hfree
  | store hfree => exact hlocked hfree
  | finish hfree => exact hlocked hfree
  | accept hfree => exact hlocked hfree
  | queue hfree => exact hlocked hfree
  | inspectQuick hfree => exact hlocked hfree
  | start hs =>
      cases hs with
      | accepted => cases hph
      | handedOff => exact ⟨rfl, id⟩
      | recorded he hf => exact ⟨rfl, (outside_record v _ hf).holder⟩
      | inspect hfree => exact hlocked hfree
      | queued => cases hph
  | @advance _ _ index _ _ _ f _ hf => exact ⟨rfl, (outside_tree v index hf).holder⟩
  | @advanceTaint _ _ _ index _ _ _ f hf ht =>
      refine taints_outside ht ?_ ⟨rfl, (outside_tree v index hf).holder⟩
      show Function.update v.epochs index ((v.epochs index).map f) v.active ≠ none
      by_cases hi : v.active = index
      · rw [← hi, Function.update_self]
        exact fun hnone => hpresent (Option.map_eq_none_iff.1 hnone)
      · rw [Function.update_of_ne hi]
        exact hpresent
  | @advanceFail _ _ index _ _ _ f hf => exact ⟨rfl, (outside_tree v index hf).holder⟩
  | @advancePark _ _ index number _ e q f _ he hf hq =>
      refine ⟨rfl, fun hh => ?_⟩
      refine holder_mapEpoch_ne index (fun e he hnone => he ?_) hh
      rw [← recordChange_query hf e]
      exact Option.map_eq_none_iff.1 hnone
  | @advanceExit _ _ index _ _ _ f _ he hf => exact ⟨rfl, (outside_record v index hf).holder⟩
  | reported => cases hph
  | stored => cases hph
  | storeFailed => cases hph
  | acceptedIdle => cases hph
  | acceptedTaint => cases hph
  | queuedQuick => cases hph
  | queuedRefuse => cases hph
  | inspect => cases hph
  | inspectFail => cases hph
  | inspectDone => cases hph
  | inspected => cases hph
  | _ => exact ⟨rfl, id⟩

/-- What a parked handler refers to stays there: the lock protects those that
    hold it. -/
theorem backed_elsewhere {h : HandlerId} {rpc : Rpc} {ph phk : Phase} {v v' : View}
    {t : Option Phase} (hstep : Trans h rpc ph v t v') (hpresent : v.epochs v.active ≠ none)
    (hlock : phk.critical = true → v.lock = true ∧ ph.critical = false)
    (hkept : ∀ j, phk = .handedOff j → v.records j ≠ none → v'.records j ≠ none)
    (hback : phk.Backed v) : phk.Backed v' := by
  have hout : phk.critical = true → Outside v v' := fun hcrit =>
    trans_outside hstep (hlock hcrit).1 (hlock hcrit).2 hpresent
  cases phk with
  | accepted j => exact hback.trans (hout rfl).active.symm
  | handedOff j => exact hkept j rfl hback
  | queued j => exact ⟨hback.1.trans (hout rfl).active.symm, (hout rfl).holder hback.2⟩
  | inspecting j coroutine stage =>
      exact ⟨hback.1.trans (hout rfl).active.symm, (hout rfl).holder hback.2⟩
  | _ => trivial

/-! ### The invariant -/

/-- The lock is a lock, the epochs are in order, and what parked handlers refer
    to is there. -/
structure ErasureInv (φ : HandlerId → Option Phase) (v : View) : Prop where
  frozen : FrozenInv φ v
  backed : ∀ k ph, φ k = some ph → ph.Backed v

section Turns

variable {w : Manager} {φ φ' : HandlerId → Option Phase} {e : Event} {i : HandlerId} {rpc : Rpc}
  {ph : Phase} {v₀ v' : View} {t : Option Phase}

omit [Keccak] in
theorem Phase.Backed.congr {v v' : View} {ph : Phase} (hback : ph.Backed v)
    (hepochs : v'.epochs = v.epochs) (hactive : v'.active = v.active) : ph.Backed v' := by
  have hrec : v'.records = v.records := by
    unfold View.records
    rw [hepochs]
  have hholder : v'.holder = v.holder := by
    unfold View.holder
    rw [hepochs, hactive]
  cases ph with
  | accepted j => exact hback.trans hactive.symm
  | handedOff j =>
      show v'.records j ≠ none
      rw [hrec]
      exact hback
  | queued j => exact ⟨hback.1.trans hactive.symm, hholder ▸ hback.2⟩
  | inspecting j coroutine stage => exact ⟨hback.1.trans hactive.symm, hholder ▸ hback.2⟩
  | _ => trivial

/-- A handler begins to run with what it refers to. -/
theorem ErasureInv.enter (hI : ErasureInv φ (View.of w.shared))
    (henters : Enters w φ e i rpc ph v₀) : ph.Backed v₀ := by
  rcases henters.before with hφ | ⟨-, rfl⟩
  · exact (hI.backed i ph hφ).congr henters.epochs henters.active
  · trivial

theorem turn_erasure (hturn : Turn w φ e i rpc ph v₀ t φ' v')
    (hI : ErasureInv φ (View.of w.shared))
    (hleave : PhaseIn Phase.processing φ i → ¬ PhaseIn Phase.processing φ' i →
      (View.of w.shared).lock = false)
    (hkept : ∀ k j, φ k = some (.handedOff j) → (View.of w.shared).records j ≠ none →
      v'.records j ≠ none) : ErasureInv φ' v' := by
  have henters := hturn.enters
  rcases hI.frozen.work.enter henters with ⟨hv₀, -⟩
  have hpresent : v₀.epochs v₀.active ≠ none := fun he => hv₀.epochs.present (records_none he)
  refine ⟨turn_frozen hturn hI.frozen hleave, fun k phk hφ => ?_⟩
  by_cases hk : k = i
  · rw [hk, hturn.after] at hφ
    exact trans_backed hturn.trans (hI.enter henters) phk hφ
  · rcases hturn.others k hk with hsame | ⟨hnone, -⟩
    · rw [hsame] at hφ
      refine backed_elsewhere hturn.trans hpresent (fun hcrit => ⟨?_, ?_⟩) (fun j hj => ?_)
        ((hI.backed k phk hφ).congr henters.epochs henters.active)
      · rw [henters.lock]
        exact hI.frozen.lock.set k (phaseIn_of hφ hcrit)
      · -- the lock has one holder, and that is not the handler that runs
        by_contra hph
        rw [Bool.not_eq_false] at hph
        exact hk (hI.frozen.lock.unique k i (phaseIn_of hφ hcrit)
          ((henters.inside rfl).2 hph))
      · subst hj
        rw [henters.records]
        exact hkept k j hφ
    · rw [hnone] at hφ
      cases hφ

/-- A handler that runs finds what it refers to. -/
theorem not_useAfterFree (hI : ErasureInv φ (View.of w.shared))
    (henters : Enters w φ e i rpc ph v₀) : ¬ Crashes i rpc ph v₀ .useAfterFree := by
  intro hcrash
  cases hcrash with
  | lost hlost =>
      rcases hI.frozen.work.enter henters with ⟨hv₀, hholds⟩
      exact not_lost hv₀.epochs hholds (hI.enter henters) hlost
  | other _ hfree => exact hfree rfl

end Turns

/-! ### Runs -/

/-- The epoch of an AdvanceState that is parked between two inputs. -/
def handedOffEpoch (w : Manager) (h : HandlerId) : Option UInt64 :=
  (w.handlers h).bind fun p => match p.tag, p.op with
    | .advanceState request, .handOff => some request.activeEpochIndex
    | _, _ => none

/-- This step does not erase the epoch of an AdvanceState that is parked between
    two inputs. -/
def KeepsHandedOff (w w' : Manager) : Prop :=
  ∀ h < w.next, ∀ index ∈ handedOffEpoch w h,
    (epochOf w index).isSome → (epochOf w' index).isSome

instance (w w' : Manager) : Decidable (KeepsHandedOff w w') :=
  decidable_of_iff (∀ h < w.next, (handedOffEpoch w h).all (fun index =>
    !(epochOf w index).isSome || (epochOf w' index).isSome) = true) <| by
    simp only [KeepsHandedOff, Option.all_eq_true, Bool.or_eq_true, Bool.not_eq_true',
      Option.mem_def, Decidable.imp_iff_not_or, Bool.not_eq_true]

/-- The events of a run, and the conditions on its steps. -/
abbrev UnerasedStep (w : Manager) (e : Event) (w' : Manager) : Prop :=
  Legal e ∧ LeavesUnlocked w w' ∧ KeepsHandedOff w w'

theorem handedOffEpoch_eq {w : Manager} {φ : HandlerId → Option Phase}
    (ha : sessionProtocol.Abides w φ) {k : HandlerId} {j : UInt64}
    (hφ : φ k = some (.handedOff j)) : k < w.next ∧ handedOffEpoch w k = some j := by
  rcases ha.parked hφ with ⟨p, hp, hat⟩
  refine ⟨?_, ?_⟩
  · by_contra hge
    rw [ha.unused k (Nat.le_of_not_lt hge)] at hp
    cases hp
  · unfold handedOffEpoch
    rw [hp, Option.bind_some]
    generalize p.tag = tag at hat
    generalize p.op = op at hat
    cases hat with
    | handedOff hindex => exact congrArg some hindex.symm

omit [Keccak] in
theorem epochOf_isSome (w : Manager) (index : UInt64) :
    (epochOf w index).isSome ↔ (View.of w.shared).records index ≠ none := by
  unfold View.records
  rw [epochOf_eq, Option.isSome_iff_ne_none, ne_eq, ne_eq, Option.map_eq_none_iff]

theorem keepsHandedOff_phases {w w' : Manager} {φ : HandlerId → Option Phase}
    (ha : sessionProtocol.Abides w φ) (hkeep : KeepsHandedOff w w') {k : HandlerId} {j : UInt64}
    (hφ : φ k = some (.handedOff j)) (hthere : (View.of w.shared).records j ≠ none) :
    (View.of w'.shared).records j ≠ none := by
  rcases handedOffEpoch_eq ha hφ with ⟨hlt, hepoch⟩
  rw [← epochOf_isSome] at hthere ⊢
  exact hkeep k hlt j hepoch hthere

theorem runs_erasure {w₀ w : Manager} (hrun : Runs step UnerasedStep w₀ w)
    (h₀ : Good ErasureInv w₀) (hw : w.halted = none) : Good ErasureInv w := by
  refine runs_good hrun (fun _ _ _ hc => hc.1) h₀ ?_ hw
  intro w w' φ φ' e i rpc ph v₀ t hc ha ha' hI hturn
  exact turn_erasure hturn hI (leavesUnlocked_phases ha ha' hc.2.1) fun k j =>
    keepsHandedOff_phases ha hc.2.2

/-- In every run in which nobody leaves `process_pending_inputs` while the
    session is locked, and no epoch is erased under an AdvanceState between two
    inputs, no handler uses an epoch that was erased. -/
theorem epoch_references_valid {hctx : HandlerContext} {session : SessionType}
    (hfresh : FreshSession hctx session) {w : Manager}
    (hrun : Runs step UnerasedStep (idle hctx) w) : w.halted ≠ some .useAfterFree := by
  rcases freshView_of hfresh with ⟨e₀, hv⟩
  have h₀ : Good ErasureInv (idle hctx) := by
    refine good_idle ⟨session, hfresh.entry⟩ ⟨⟨guarded_idle, workInv_fresh hv⟩, fun k ph hφ => ?_⟩
    cases hφ
  intro hhalt
  cases hrun with
  | refl => cases hhalt
  | @tail w₁ _ e hbefore hstep hc =>
      have hw₁ := step_running hstep
      rcases runs_erasure hbefore h₀ hw₁ with ⟨φ, ha, hI⟩
      rcases step_moves hc.1 ha hw₁ hstep with ⟨x, hx, hcrash⟩ | ⟨hnone, -⟩
      · rw [hhalt] at hx
        cases hx
        rcases hcrash (Or.inr rfl) with ⟨i, rpc, ph, v₀, henters, hcrash⟩
        exact not_useAfterFree hI henters hcrash
      · rw [hnone] at hhalt
        cases hhalt

end ServerManager

/-! ### On the sample session -/

namespace ServerManager

open Coroutine

attribute [local instance] keccak256

/-- AdvanceState records its only input and hands the machine over to a query,
    which is answered and puts it in the completion queue. -/
def handingEvents : List Event :=
  [.request (.advanceState (sampleRequest 0)), .answered 0, .request (.inspectState sampleQuery),
    .answered 0, .checkIn, .answered 2, .answered 0, .checkIn, .answered 3, .answered 0,
    .resumed, .answered 1]

/-- Before AdvanceState comes back its epoch is finished and deleted, in a run
    without any taint. -/
theorem handed_off_epoch_erased : ∃ w,
    Runs step (fun _ e w' => Legal e ∧ sessionTainted w' = false) (idle sampleContext) w ∧
      w.halted = some .useAfterFree := by
  obtain ⟨w, hrun, hw⟩ : ∃ w,
      Runs step (fun _ e w' => Legal e ∧ sessionTainted w' = false) (idle sampleContext) w ∧
        (w.halted == some .useAfterFree) = true :=
    exists_run (fun _ e w' => Legal e && !sessionTainted w')
      (handingEvents ++ [.request (sampleFinish 1 ""), .answered 4, .request (.deleteEpoch 0),
        .resumed])
      (fun _ _ _ h => by simpa using h) (by decide +kernel)
  exact ⟨w, hrun, beq_iff_eq.1 hw⟩

/-- With AdvanceState back first, the epoch is finished and deleted, and nobody
    refers to it. -/
theorem epoch_references_valid_sample : ∃ w, Runs step UnerasedStep (idle sampleContext) w ∧
    epochOf w 0 = none ∧ w.halted ≠ some .useAfterFree := by
  obtain ⟨w, hrun, hw⟩ : ∃ w, Runs step UnerasedStep (idle sampleContext) w ∧
      (epochOf w 0).isNone = true :=
    exists_run (fun w e w' => decide (UnerasedStep w e w'))
      (handingEvents ++ [.resumed, .request (sampleFinish 1 ""), .answered 4,
        .request (.deleteEpoch 0)])
      (fun _ _ _ h => of_decide_eq_true h) (by decide +kernel)
  rw [Option.isNone_iff_eq_none] at hw
  exact ⟨w, hrun, hw, epoch_references_valid freshSession_sample hrun⟩

end ServerManager
