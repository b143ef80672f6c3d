import ServerManager.Theory.Epochs

/-!
# Finished Epochs

What FinishEpoch saw of an epoch stays true as long as nobody can get at the
active epoch while it waits in the store call, and that is what the session lock
is for: under the condition that makes the lock a lock, a finished epoch has no
pending input and never changes, until it is deleted.

## Main definitions

* `FrozenInv`: The invariant, with both locks.
* `EpochsFrozen`, `StillFrozen`: The property, for one world and for two.

## Theorems

* `turn_frozen`: The invariant is kept.
* `epochs_frozen`: Finished epochs in every run without a stolen lock.
-/

namespace ServerManager

open Coroutine

variable [Keccak]

/-! ### The invariant -/

/-- The lock is a lock, and the epochs are in order. -/
structure FrozenInv (φ : HandlerId → Option Phase) (v : View) : Prop where
  lock : LockInv φ v
  work : WorkInv φ v

theorem turn_frozen {w : Manager} {φ φ' : HandlerId → Option Phase} {e : Event} {i : HandlerId}
    {rpc : Rpc} {ph : Phase} {v₀ v' : View} {t : Option Phase}
    (hturn : Turn w φ e i rpc ph v₀ t φ' v') (hI : FrozenInv φ (View.of w.shared))
    (hleave : PhaseIn Phase.processing φ i → ¬ PhaseIn Phase.processing φ' i →
      (View.of w.shared).lock = false) : FrozenInv φ' v' := by
  refine ⟨turn_lock hturn hI.lock hleave, turn_work hturn hI.work fun k hk j hφ => ?_⟩
  have hin : PhaseIn Phase.critical φ k := phaseIn_of hφ rfl
  refine ⟨hI.lock.set k hin, ?_⟩
  rintro j' rfl
  exact hk (hI.lock.unique k i hin ((hturn.enters.inside rfl).2 rfl))

/-! ### Finished epochs -/

/-- At most one epoch is active, a finished one has no pending input, and what
    FinishEpoch returned for an epoch is what is stored. -/
structure EpochsFrozen (w : Manager) : Prop where
  oneActive : ∀ i j e e', epochOf w i = some e → epochOf w j = some e' → e.state = .active →
    e'.state = .active → i = j
  drained : ∀ i e, epochOf w i = some e → e.state = .finished → e.pendingInputs = []
  returned : ∀ request response e,
    (.finishEpoch request, .finish (.finishEpoch response)) ∈ w.shared.sent →
      epochOf w request.activeEpochIndex = some e → e.state = .finished ∧ Returns e response

/-- What does not change in a finished epoch. -/
structure SameEpoch (e e' : EpochType) : Prop where
  state : e'.state = e.state
  processed : e'.processedInputs = e.processedInputs
  vouchers : e'.vouchersTree = e.vouchersTree
  notices : e'.noticesTree = e.noticesTree
  hash : e'.mostRecentMachineHash = e.mostRecentMachineHash

/-- An epoch is as it was, or it was deleted. -/
def StillFrozen (e : EpochType) (w' : Manager) (i : UInt64) : Prop :=
  (∃ e', epochOf w' i = some e' ∧ SameEpoch e e') ∨
    (epochOf w' i = none ∧ (.deleteEpoch i, .finish .void) ∈ w'.shared.sent)

/-- `StillFrozen` on the records. -/
structure Kept (i : UInt64) (e : EpochType) (v : View) : Prop where
  below : i ≤ v.active
  same : (∃ e', v.records i = some e' ∧ SameEpoch e e') ∨
    (v.records i = none ∧ (.deleteEpoch i, .finish .void) ∈ v.notes)

omit [Keccak] in
/-- A record that does not change, or changes somewhere else. -/
theorem Kept.of_eq {i : UInt64} {e : EpochType} {v v' : View} (hK : Kept i e v)
    (hbelow : i ≤ v'.active) (hrec : v'.records i = v.records i)
    (hnotes : ∀ x ∈ v.notes, x ∈ v'.notes) : Kept i e v' := by
  refine ⟨hbelow, ?_⟩
  rw [hrec]
  obtain hsame | ⟨hnone, hdel⟩ := hK.same
  · exact Or.inl hsame
  · exact Or.inr ⟨hnone, hnotes _ hdel⟩

omit [Keccak] in
/-- The open epoch is not one that was finished. -/
theorem Kept.ne_open {i j : UInt64} {e e₁ : EpochType} {v : View} (hK : Kept i e v)
    (hfin : e.state = .finished) (he₁ : v.records j = some e₁) (hopen : e₁.state = .active) :
    i ≠ j := by
  rintro rfl
  obtain ⟨e', he', hsame⟩ | ⟨hnone, -⟩ := hK.same
  · rw [he₁] at he'
    cases he'
    rw [hsame.state, hfin] at hopen
    cases hopen
  · rw [he₁] at hnone
    cases hnone

theorem kept_step {rpc : Rpc} {ph : Phase} {v v' : View} {i : UInt64} {e : EpochType}
    (hstep : RecordStep rpc ph v v') (hI : EpochsOk v.records v.active v.notes)
    (hph : ph.Holds v) (hfin : e.state = .finished) (hK : Kept i e v) : Kept i e v' := by
  cases hstep with
  | quiet hrec hactive hcount hmcycle hnotes =>
      exact hK.of_eq (hactive ▸ hK.below) (by rw [hrec]) fun x hx => hnotes ▸ hx
  | tree hg hph' hrec hactive hcount hmcycle hnotes =>
      rw [hph'] at hph
      obtain ⟨-, -, e₁, he₁, hopen, -⟩ := hph
      refine hK.of_eq (hactive ▸ hK.below) ?_ fun x hx => hnotes ▸ hx
      rw [hrec, Function.update_of_ne (hK.ne_open hfin he₁ hopen)]
  | record hph' he hi hrec hactive hcount hnotes =>
      rw [hph'] at hph
      obtain ⟨-, -, e₁, he₁, hopen, -⟩ := hph
      refine hK.of_eq (hactive ▸ hK.below) ?_ fun x hx => hnotes ▸ hx
      rw [hrec, Function.update_of_ne (hK.ne_open hfin he₁ hopen)]
  | accept hrpc hph' hlock htaint hindex he hstate hnumber hcurrent hinput hrec hactive hcount
      hmcycle hnotes =>
      refine hK.of_eq (hactive ▸ hK.below) ?_ fun x hx => ?_
      · rw [hrec, Function.update_of_ne (hK.ne_open hfin he hstate)]
      · rw [hnotes]
        exact List.mem_append_left _ hx
  | @delete index e₁ hrpc hph' hlock he hstate hne hrec hactive hcount hmcycle hnotes =>
      by_cases hi : i = index
      · refine ⟨hactive ▸ hK.below, Or.inr ⟨?_, ?_⟩⟩
        · rw [hrec, hi, Function.update_self]
        · rw [hnotes, hi]
          exact List.mem_append_right _ (List.mem_singleton.2 rfl)
      · refine hK.of_eq (hactive ▸ hK.below) ?_ fun x hx => ?_
        · rw [hrec, Function.update_of_ne hi]
        · rw [hnotes]
          exact List.mem_append_left _ hx
  | finish hrpc hready he hrec hactive hcount hmcycle hnotes =>
      obtain ⟨hstate, hpend, hmax⟩ := hready.facts he hph
      have hlt := lt_next_epoch hK.below hmax
      refine hK.of_eq (hactive ▸ UInt64.le_of_lt hlt) ?_ fun x hx => ?_
      · unfold startedRecords at hrec
        rw [hrec, Function.update_of_ne (UInt64.ne_of_lt hlt),
          Function.update_of_ne (hK.ne_open hfin he hstate)]
      · obtain hsame | ⟨_, _, -, -, happ⟩ := hnotes
        · exact hsame ▸ hx
        · rw [happ]
          exact List.mem_append_left _ hx
  | spoil hrpc hready he hrec hactive hcount hmcycle hnotes =>
      obtain ⟨hstate, hpend, hmax⟩ := hready.facts he hph
      refine hK.of_eq (hactive ▸ hK.below) ?_ fun x hx => hnotes ▸ hx
      rw [hrec, Function.update_of_ne (hK.ne_open hfin he hstate)]
  | missing he => exact absurd he hI.present

/-- The events of a run, and the condition on its steps. -/
abbrev UnstolenStep (w : Manager) (e : Event) (w' : Manager) : Prop :=
  Legal e ∧ LeavesUnlocked w w'

theorem runs_frozen {w₀ w : Manager} (hrun : Runs step UnstolenStep w₀ w)
    (h₀ : Good FrozenInv w₀) (hw : w.halted = none) : Good FrozenInv w :=
  runs_good hrun (fun _ _ _ hc => hc.1) h₀
    (fun hc ha ha' hI hturn => turn_frozen hturn hI (leavesUnlocked_phases ha ha' hc.2)) hw

theorem runs_kept {w w' : Manager} (hrun : Runs step UnstolenStep w w') {i : UInt64}
    {e : EpochType} (hfin : e.state = .finished)
    (h₀ : Good (fun φ v => FrozenInv φ v ∧ Kept i e v) w) (hw : w'.halted = none) :
    Good (fun φ v => FrozenInv φ v ∧ Kept i e v) w' := by
  refine runs_good hrun (fun _ _ _ hc => hc.1) h₀ ?_ hw
  intro w w' φ φ' ev k rpc ph v₀ t hc ha ha' hI hturn
  refine ⟨turn_frozen hturn hI.1 (leavesUnlocked_phases ha ha' hc.2), ?_⟩
  obtain ⟨hv₀, hph⟩ := hI.1.work.enter hturn.enters
  refine kept_step (trans_records hturn.trans) hv₀.epochs hph hfin ?_
  refine hI.2.of_eq (hturn.enters.active.symm ▸ hI.2.below) (by rw [hturn.enters.records]) ?_
  intro x hx
  rwa [hturn.enters.notes]

theorem epochsFrozen_of {w : Manager} (hgood : Good FrozenInv w) : EpochsFrozen w := by
  obtain ⟨φ, ha, hI⟩ := hgood
  refine ⟨fun i j e e' he he' hs hs' => ?_, fun i e he hs => ?_, fun request response e hm he => ?_⟩
  · have hi := hI.work.epochs.one i _ (epochOf_records he) hs
    have hj := hI.work.epochs.one j _ (epochOf_records he') hs'
    exact hi.trans hj.symm
  · have hpend := hI.work.epochs.drained i _ (epochOf_records he) hs
    exact hpend
  · have hnote : (.finishEpoch request, .finish (.finishEpoch response)) ∈
        (View.of w.shared).notes := by
      unfold View.notes
      rw [view_of_sent]
      exact List.mem_filter.2 ⟨hm, rfl⟩
    obtain ⟨hstate, hm, hv, hn⟩ :=
      (hI.work.epochs.logged request response hnote).2 _ (epochOf_records he)
    exact ⟨hstate, hm, hv, hn⟩

omit [Keccak] in
theorem stillFrozen_of {w : Manager} {i : UInt64} {e : EpochType}
    (hK : Kept i e (View.of w.shared)) : StillFrozen e w i := by
  unfold StillFrozen
  rw [epochOf_eq]
  have hrec : (View.of w.shared).records i = ((View.of w.shared).epochs i).map clearQuery := rfl
  obtain ⟨e', he', hsame⟩ | ⟨hnone, hdel⟩ := hK.same
  · rw [hrec] at he'
    obtain ⟨e₁, he₁, rfl⟩ := Option.map_eq_some_iff.1 he'
    exact Or.inl ⟨e₁, he₁, hsame.state, hsame.processed, hsame.vouchers, hsame.notices, hsame.hash⟩
  · rw [hrec] at hnone
    refine Or.inr ⟨Option.map_eq_none_iff.1 hnone, ?_⟩
    rw [← view_of_sent]
    exact (List.mem_filter.1 hdel).1

/-- In every run in which nobody leaves `process_pending_inputs` while the
    session is locked, finished epochs are frozen. -/
theorem epochs_frozen {hctx : HandlerContext} {session : SessionType}
    (hfresh : FreshSession hctx session) {w w' : Manager}
    (hrun : Runs step UnstolenStep (idle hctx) w) (hlater : Runs step UnstolenStep w w')
    (hw' : w'.halted = none) :
    EpochsFrozen w' ∧
      ∀ i e, epochOf w i = some e → e.state = .finished → StillFrozen e w' i := by
  obtain ⟨e₀, hv⟩ := freshView_of hfresh
  have h₀ : Good FrozenInv (idle hctx) :=
    good_idle ⟨session, hfresh.entry⟩ ⟨guarded_idle, workInv_fresh hv⟩
  refine ⟨epochsFrozen_of (runs_frozen (runs_trans hrun hlater) h₀ hw'), fun i e he hfin => ?_⟩
  obtain ⟨φ, ha, hI⟩ := runs_frozen hrun h₀ (runs_running hlater hw')
  have hK : Kept i e (View.of w.shared) :=
    ⟨hI.work.epochs.below i _ (epochOf_records he),
      Or.inl ⟨clearQuery e, epochOf_records he, rfl, rfl, rfl, rfl, rfl⟩⟩
  obtain ⟨-, -, -, hK'⟩ := runs_kept hlater hfin ⟨φ, ha, hI, hK⟩ hw'
  exact stillFrozen_of hK'

end ServerManager

/-! ### On the sample session -/

namespace ServerManager

open Coroutine

attribute [local instance] keccak256

def sampleFinish (count : UInt64) (directory : String) : Rpc :=
  .finishEpoch
    { activeEpochIndex := 0
      processedInputCountWithinEpoch := count
      storageDirectory := directory }

/-- An AdvanceState that was parked for a query comes back while FinishEpoch is
    storing the machine, and unlocks the session. The next AdvanceState gets its
    input into the epoch that is then closed. -/
def thawingEvents : List Event :=
  [.request (.advanceState (sampleRequest 0)), .answered 0, .request (.inspectState sampleQuery),
    .answered 0, .checkIn, .answered 2, .answered 0, .checkIn, .answered 3, .answered 0,
    .resumed, .answered 1, .request (sampleFinish 1 "epoch"), .resumed,
    .request (.advanceState (sampleRequest 1)), .answered 4]

/-- Epoch 0 is closed, with an input in its queue or without. -/
def closedWith (w : Manager) (pending : Bool) : Bool :=
  (epochOf w 0).any fun e => decide (e.state = .finished) && (e.pendingInputs.isEmpty == !pending)

theorem closed_epoch_pending : ∃ w, Runs step (fun _ e _ => Legal e) (idle sampleContext) w ∧
    w.halted = none ∧ closedWith w true = true ∧ ¬ EpochsFrozen w := by
  obtain ⟨w, hrun, hw⟩ : ∃ w, Runs step (fun _ e _ => Legal e) (idle sampleContext) w ∧
      (w.halted.isNone && closedWith w true) = true :=
    exists_run (fun _ e _ => Legal e) thawingEvents (fun _ _ _ h => h) (by decide +kernel)
  rw [Bool.and_eq_true, Option.isNone_iff_eq_none] at hw
  refine ⟨w, hrun, hw.1, hw.2, fun hfrozen => ?_⟩
  obtain ⟨e, he, htest⟩ := (Option.any_eq_true ..).1 hw.2
  rw [Bool.and_eq_true, decide_eq_true_eq] at htest
  rw [hfrozen.drained 0 e he htest.1] at htest
  cases htest.2

/-- Epoch 0 is closed, and then an input is accepted in epoch 1. -/
theorem epochs_frozen_sample : ∃ w w' e, Runs step UnstolenStep (idle sampleContext) w ∧
    Runs step UnstolenStep w w' ∧ epochOf w 0 = some e ∧ e.state = .finished ∧
    EpochsFrozen w' ∧ StillFrozen e w' 0 := by
  obtain ⟨w, hrun, hw⟩ : ∃ w, Runs step UnstolenStep (idle sampleContext) w ∧
      (closedWith w false && (play step (fun w e w' => decide (UnstolenStep w e w')) w
        [.answered 0, .request (.advanceState { sampleRequest 0 with activeEpochIndex := 1 })]).any
        (fun w => w.halted.isNone)) = true :=
    exists_run (fun w e w' => decide (UnstolenStep w e w')) [.request (sampleFinish 0 "")]
      (fun _ _ _ h => of_decide_eq_true h) (by decide +kernel)
  rw [Bool.and_eq_true] at hw
  obtain ⟨w', hlater, hw'⟩ := exists_run (C := UnstolenStep) _ _
    (fun _ _ _ h => of_decide_eq_true h) hw.2
  rw [Option.isNone_iff_eq_none] at hw'
  obtain ⟨e, he, htest⟩ := (Option.any_eq_true ..).1 hw.1
  rw [Bool.and_eq_true, decide_eq_true_eq] at htest
  obtain ⟨hfrozen, hstill⟩ := epochs_frozen freshSession_sample hrun hlater hw'
  exact ⟨w, w', e, hrun, hlater, he, htest.1, hfrozen, hstill 0 e he htest.1⟩

end ServerManager
