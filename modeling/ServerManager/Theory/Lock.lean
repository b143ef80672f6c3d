import ServerManager.Core.Sample
import ServerManager.Theory.Sections

/-!
# The Locks of a Session

A handler that finds the session unlocked locks it, and unlocks it when its
scope ends. AdvanceState unlocks it early, after the acknowledgement, and goes
on to process inputs with its lock object alive; when it is done, the destructor
clears the flag once more, whoever holds the lock by then. `LeavesUnlocked` is
what has to hold of a step for that not to matter, and under it the lock is a
lock.

The processing lock has no such history: it is held by the handler inside
`process_pending_inputs` and by nobody else. Both flags guard a section of the
handlers, and the argument for both is `turn_guarded`.

## Main definitions

* `FlagStep`: What a step does to a flag.
* `Guarded`: A flag guards a section.
* `Held`: A flag that is set is set for somebody.
* `LockInv`, `ProcessingInv`: The two flags of a session.
* `LeavesUnlocked`: Nobody leaves `process_pending_inputs` in a locked session.
* `LockExclusion`: Mutual exclusion.

## Theorems

* `turn_guarded`, `turn_held`: A turn keeps the guard of a section.
* `turn_lock`, `turn_processing`: The two flags.
* `lock_exclusion`: Mutual exclusion in every run without a stolen lock.
-/

namespace ServerManager

open Coroutine

variable [Keccak]

/-! ### Flags -/

/-- What a step does to a flag that guards a section of the handlers. A flag can
    be cleared by a handler that is not in the section, and the step then
    steals it. -/
inductive FlagStep (b : Phase → Bool) (flag : View → Bool) (steals : Prop) (ph : Phase) (v : View)
    (t : Option Phase) (v' : View) : Prop
  | keeps (hflag : flag v' = flag v) (hin : t.any b = b ph)
  | acquires (hfree : flag v = false) (hset : flag v' = true) (hin : t.any b = true)
  | releases (hflag : flag v' = false) (hout : t.any b = false) (hwhy : b ph = true ∨ steals)

/-- A handler in the section is the only one, and the flag is set. -/
structure Guarded (b : Phase → Bool) (flag : View → Bool) (φ : HandlerId → Option Phase)
    (v : View) : Prop where
  set : ∀ k, PhaseIn b φ k → flag v = true
  unique : ∀ k l, PhaseIn b φ k → PhaseIn b φ l → k = l

omit [Keccak] in
/-- Nobody is in the section. -/
theorem guarded_of_none {b : Phase → Bool} {flag : View → Bool} {φ : HandlerId → Option Phase}
    {v : View} (hnone : ∀ k, ¬ PhaseIn b φ k) : Guarded b flag φ v :=
  ⟨fun k hk => absurd hk (hnone k), fun k _ hk => absurd hk (hnone k)⟩

omit [Keccak] in
/-- Nobody is anywhere. -/
theorem guarded_idle {b : Phase → Bool} {flag : View → Bool} {v : View} :
    Guarded b flag (fun _ => none) v := by
  refine guarded_of_none fun k hk => ?_
  cases hk

omit [Keccak] in
/-- Nobody is in the section of a flag that is clear. -/
theorem Guarded.none {b : Phase → Bool} {flag : View → Bool} {φ : HandlerId → Option Phase}
    {v : View} (hI : Guarded b flag φ v) (hclear : flag v = false) (k : HandlerId) :
    ¬ PhaseIn b φ k := fun hk => by
  have hset := hI.set k hk
  rw [hclear] at hset
  cases hset

/-- A turn keeps the guard of a section, if it only steals a flag that is clear
    anyway. -/
theorem turn_guarded {b : Phase → Bool} {flag : View → Bool} {steals : Prop} {w : Manager}
    {φ φ' : HandlerId → Option Phase} {e : Event} {i : HandlerId} {rpc : Rpc} {ph : Phase}
    {v₀ v' : View} {t : Option Phase} (hturn : Turn w φ e i rpc ph v₀ t φ' v')
    (hfresh : b .fresh = false) (hcheck : ∀ g, b (.checkedIn g) = false)
    (hflag : flag v₀ = flag (View.of w.shared)) (hstep : FlagStep b flag steals ph v₀ t v')
    (hI : Guarded b flag φ (View.of w.shared))
    (hsteal : steals → flag (View.of w.shared) = false) : Guarded b flag φ' v' := by
  have hother : ∀ {k}, k ≠ i → (PhaseIn b φ' k ↔ PhaseIn b φ k) := hturn.elsewhere hcheck
  have hinside : PhaseIn b φ i ↔ b ph = true := hturn.enters.inside hfresh
  cases hstep with
  | keeps hkeep hin =>
      have hsame : ∀ k, PhaseIn b φ' k ↔ PhaseIn b φ k := hturn.unmoved hfresh hcheck hin
      refine ⟨fun k hk => ?_, fun k l hk hl => ?_⟩
      · rw [hkeep, hflag]
        exact hI.set k ((hsame k).1 hk)
      · exact hI.unique k l ((hsame k).1 hk) ((hsame l).1 hl)
  | acquires hfree hset hin =>
      have honly : ∀ k, PhaseIn b φ' k → k = i := by
        intro k hk
        by_contra hne
        exact hI.none (hflag ▸ hfree) k ((hother hne).1 hk)
      exact ⟨fun _ _ => hset, fun k l hk hl => (honly k hk).trans (honly l hl).symm⟩
  | releases hclear hout hwhy =>
      refine guarded_of_none fun k hk => ?_
      rcases hturn.outside hcheck hout hk with ⟨hki, hwas⟩
      rcases hwhy with hph | hst
      · exact hki (hI.unique k i hwas (hinside.2 hph))
      · exact hI.none (hsteal hst) k hwas

/-- A flag that is set is set for somebody in the section. -/
def Held (b : Phase → Bool) (flag : View → Bool) (φ : HandlerId → Option Phase)
    (v : View) : Prop := flag v = true → ∃ k, PhaseIn b φ k

/-- A turn leaves no flag set that nobody holds, whether or not it steals. -/
theorem turn_held {b : Phase → Bool} {flag : View → Bool} {steals : Prop} {w : Manager}
    {φ φ' : HandlerId → Option Phase} {e : Event} {i : HandlerId} {rpc : Rpc} {ph : Phase}
    {v₀ v' : View} {t : Option Phase} (hturn : Turn w φ e i rpc ph v₀ t φ' v')
    (hfresh : b .fresh = false) (hcheck : ∀ g, b (.checkedIn g) = false)
    (hflag : flag v₀ = flag (View.of w.shared)) (hstep : FlagStep b flag steals ph v₀ t v')
    (hI : Held b flag φ (View.of w.shared)) : Held b flag φ' v' := by
  intro hset
  cases hstep with
  | keeps hkeep hin =>
      rcases hI (by rw [← hflag, ← hkeep, hset]) with ⟨k, hk⟩
      exact ⟨k, (hturn.unmoved hfresh hcheck hin k).2 hk⟩
  | acquires hfree hnew hin => exact ⟨i, hturn.inside.2 hin⟩
  | releases hclear =>
      rw [hclear] at hset
      cases hset

/-! ### The session lock -/

/-- The section of the session lock, which the end of `process_pending_inputs`
    can steal. -/
abbrev LockStep (ph : Phase) (v : View) (t : Option Phase) (v' : View) : Prop :=
  FlagStep Phase.critical View.lock (ph.processing = true ∧ t.any Phase.processing = false)
    ph v t v'

abbrev LockInv : (HandlerId → Option Phase) → View → Prop := Guarded Phase.critical View.lock

theorem taints_lock {h : HandlerId} {v v' : View} {t : Option Phase} (ht : Taints h v t v') :
    v'.lock = v.lock ∧ t.any Phase.critical = false ∧ t.any Phase.processing = false := by
  cases ht with
  | quiet => exact ⟨rfl, rfl, rfl⟩
  | missing => exact ⟨rfl, rfl, rfl⟩
  | handOver => exact ⟨rfl, rfl, rfl⟩

theorem finishes_lock {request : FinishEpochRequest} {v v' : View} {e : EpochType} {ph : Phase}
    (hf : Finishes request v e ph v') :
    (v'.lock = v.lock ∧ ph.critical = true) ∨ (v'.lock = false ∧ ph.critical = false) := by
  cases hf with
  | answered => exact Or.inl ⟨rfl, rfl⟩
  | proofFailed => exact Or.inr ⟨rfl, rfl⟩
  | responseFailed => exact Or.inr ⟨rfl, rfl⟩

omit [Keccak] in
theorem starts_lock {h : HandlerId} {rpc : Rpc} {ph ph' : Phase} {v v' : View}
    (hs : Starts h rpc ph v ph' v') : LockStep ph v (some ph') v' := by
  cases hs with
  | accepted => exact .releases rfl rfl (Or.inl rfl)
  | handedOff => exact .keeps rfl rfl
  | recorded => exact .keeps rfl rfl
  | inspect hlock => exact .acquires hlock rfl rfl
  | queued => exact .keeps rfl rfl

omit [Keccak] in
@[simp] theorem wake_lock (v : View) (g : Option HandlerId) : (v.wake g).lock = v.lock := by
  cases g <;> rfl

/-- Every step keeps, acquires or releases the lock. -/
theorem trans_lock {h : HandlerId} {rpc : Rpc} {ph : Phase} {v v' : View} {t : Option Phase}
    (hstep : Trans h rpc ph v t v') : LockStep ph v t v' := by
  cases hstep with
  | ignore => exact .keeps rfl rfl
  | refuse => exact .keeps rfl rfl
  | refused => exact .keeps rfl rfl
  | report hrpc hlock => exact .acquires hlock rfl rfl
  | delete hlock => exact .acquires hlock rfl rfl
  | reported => exact .releases rfl rfl (Or.inl rfl)
  | store hlock => exact .acquires hlock rfl rfl
  | finish hlock htaint hmax hdir he hstate hpend hf =>
      obtain ⟨hl, hc⟩ | ⟨hl, hc⟩ := finishes_lock hf
      · exact .acquires hlock hl hc
      · exact .keeps (hl.trans hlock.symm) hc
  | stored he hf =>
      obtain ⟨hl, hc⟩ | ⟨hl, hc⟩ := finishes_lock hf
      · exact .keeps hl hc
      · exact .releases hl hc (Or.inl rfl)
  | storeFailed => exact .releases rfl rfl (Or.inl rfl)
  | start hs => exact starts_lock hs
  | accept hlock => exact .acquires hlock rfl rfl
  | acceptedIdle => exact .releases rfl rfl (Or.inl rfl)
  | acceptedTaint hwhy ht =>
      obtain ⟨hl, hc, hp⟩ := taints_lock ht
      exact .releases hl hc (Or.inl rfl)
  | advance => exact .keeps rfl rfl
  | advanceTaint hf ht =>
      obtain ⟨hl, hc, hp⟩ := taints_lock ht
      exact .releases hl hc (Or.inr ⟨rfl, hp⟩)
  | advanceFail => exact .releases rfl rfl (Or.inr ⟨rfl, rfl⟩)
  | advancePark => exact .keeps rfl rfl
  | advanceExit => exact .releases rfl rfl (Or.inr ⟨rfl, rfl⟩)
  | handedExit => exact .releases rfl rfl (Or.inr ⟨rfl, rfl⟩)
  | left => exact .keeps rfl rfl
  | queue hlock => exact .acquires hlock rfl rfl
  | inspectQuick hlock => exact .acquires hlock rfl rfl
  | queuedQuick => exact .keeps rfl rfl
  | queuedRefuse => exact .releases rfl rfl (Or.inl rfl)
  | inspect => exact .keeps rfl rfl
  | inspectFail => exact .releases rfl rfl (Or.inl rfl)
  | inspectDone => exact .keeps rfl rfl
  | inspected => exact .releases rfl rfl (Or.inl rfl)
  | checkIn => exact .keeps rfl rfl
  | checkedIn => exact .keeps rfl rfl
  | deadline => exact .keeps rfl rfl
  | resumed => exact .keeps rfl rfl

/-- A turn keeps the lock invariant if it is not the end of
    `process_pending_inputs` in a locked session. -/
theorem turn_lock {w : Manager} {φ φ' : HandlerId → Option Phase} {e : Event} {i : HandlerId}
    {rpc : Rpc} {ph : Phase} {v₀ v' : View} {t : Option Phase}
    (hturn : Turn w φ e i rpc ph v₀ t φ' v') (hI : LockInv φ (View.of w.shared))
    (hleave : PhaseIn Phase.processing φ i → ¬ PhaseIn Phase.processing φ' i →
      (View.of w.shared).lock = false) : LockInv φ' v' := by
  refine turn_guarded hturn rfl (fun _ => rfl) hturn.enters.lock (trans_lock hturn.trans) hI ?_
  rintro ⟨hin, hout⟩
  refine hleave ((hturn.enters.inside rfl).2 hin) ?_
  rw [hturn.inside, hout]
  exact Bool.false_ne_true

/-! ### The processing lock -/

/-- The section of the processing lock, which nobody steals. -/
abbrev ProcessingStep (ph : Phase) (v : View) (t : Option Phase) (v' : View) : Prop :=
  FlagStep Phase.processing View.processing False ph v t v'

abbrev ProcessingInv : (HandlerId → Option Phase) → View → Prop :=
  Guarded Phase.processing View.processing

theorem taints_processing {h : HandlerId} {v v' : View} {t : Option Phase}
    (ht : Taints h v t v') : v'.processing = v.processing := by
  cases ht with
  | quiet => rfl
  | missing => rfl
  | handOver => rfl

theorem finishes_processing {request : FinishEpochRequest} {v v' : View} {e : EpochType}
    {ph : Phase} (hf : Finishes request v e ph v') :
    v'.processing = v.processing ∧ ph.processing = false := by
  cases hf with
  | answered => exact ⟨rfl, rfl⟩
  | proofFailed => exact ⟨rfl, rfl⟩
  | responseFailed => exact ⟨rfl, rfl⟩

omit [Keccak] in
theorem starts_processing {h : HandlerId} {rpc : Rpc} {ph ph' : Phase} {v v' : View}
    (hs : Starts h rpc ph v ph' v') : ProcessingStep ph v (some ph') v' := by
  cases hs with
  | accepted _ _ _ hproc => exact .acquires hproc rfl rfl
  | handedOff => exact .keeps rfl rfl
  | recorded => exact .keeps rfl rfl
  | inspect => exact .keeps rfl rfl
  | queued => exact .keeps rfl rfl

omit [Keccak] in
@[simp] theorem wake_processing (v : View) (g : Option HandlerId) :
    (v.wake g).processing = v.processing := by
  cases g <;> rfl

/-- Every step keeps, acquires or releases the processing lock. -/
theorem trans_processing {h : HandlerId} {rpc : Rpc} {ph : Phase} {v v' : View}
    {t : Option Phase} (hstep : Trans h rpc ph v t v') : ProcessingStep ph v t v' := by
  cases hstep with
  | start hs => exact starts_processing hs
  | finish _ _ _ _ _ _ _ hf =>
      obtain ⟨hp, hph⟩ := finishes_processing hf
      exact .keeps hp hph
  | stored he hf =>
      obtain ⟨hp, hph⟩ := finishes_processing hf
      exact .keeps hp hph
  | acceptedTaint hwhy ht =>
      have hp := taints_processing ht
      exact .keeps hp (taints_lock ht).2.2
  | advanceTaint hf ht =>
      have hp := taints_processing ht
      exact .releases hp (taints_lock ht).2.2 (Or.inl rfl)
  | advanceFail => exact .releases rfl rfl (Or.inl rfl)
  | advanceExit => exact .releases rfl rfl (Or.inl rfl)
  | handedExit => exact .releases rfl rfl (Or.inl rfl)
  | queuedRefuse => exact .keeps (wake_processing _ _) rfl
  | inspectFail => exact .keeps (wake_processing _ _) rfl
  | inspected => exact .keeps (wake_processing _ _) rfl
  | _ => exact .keeps rfl rfl

theorem turn_processing {w : Manager} {φ φ' : HandlerId → Option Phase} {e : Event}
    {i : HandlerId} {rpc : Rpc} {ph : Phase} {v₀ v' : View} {t : Option Phase}
    (hturn : Turn w φ e i rpc ph v₀ t φ' v') (hI : ProcessingInv φ (View.of w.shared)) :
    ProcessingInv φ' v' :=
  turn_guarded hturn rfl (fun _ => rfl) hturn.enters.processing (trans_processing hturn.trans) hI
    False.elim

/-! ### Mutual exclusion -/

/-- `session_lock` of the session. -/
def sessionLocked (w : Manager) : Bool := (w.shared.session.map fun s => s.2.sessionLock).getD false

omit [Keccak] in
theorem sessionLocked_eq (w : Manager) : sessionLocked w = (View.of w.shared).lock := by
  unfold sessionLocked View.of
  cases w.shared.session with
  | none => rfl
  | some entry => rfl

/-- No handler leaves `process_pending_inputs` in this step while the session
    is locked. -/
def LeavesUnlocked (w w' : Manager) : Prop :=
  ∀ h < w.next, InProcessing w h → ¬ InProcessing w' h → sessionLocked w = false

instance (w w' : Manager) : Decidable (LeavesUnlocked w w') :=
  inferInstanceAs (Decidable (∀ h < w.next, _ → _ → _))

/-- Mutual exclusion: a handler in its critical section is the only one, the
    lock is set as long as there is one, and an AdvanceState that is about to
    release the lock finds it set, so that `release` returns. -/
structure LockExclusion (w : Manager) : Prop where
  exclusive : ∀ h k, InCritical w h → InCritical w k → h = k
  locked : ∀ h, InCritical w h → sessionLocked w = true
  released : ∀ h, AwaitsAck w h → ∀ (env : Environment) (name : String),
    ∃ s, (sessionLockField.release 0 name).seg (env.apply w.shared) = (.done (), s)

omit [Keccak] in
/-- `release` returns when the lock is set. -/
theorem release_seg {hctx : HandlerContext} {session : SessionType}
    (hs : hctx.session = some (0, session)) (hlock : session.sessionLock = true) (name : String) :
    ∃ s, (sessionLockField.release 0 name).seg hctx = (.done (), s) := by
  refine ⟨{ hctx with session := some (0, { session with sessionLock := false }) }, ?_⟩
  simp [LockField.release, getSession, modifySession, Prog.seg, Prog.bind, hs, hlock,
    sessionLockField]

omit [Keccak] in
theorem awaitsAck_critical {w : Manager} {h : HandlerId} (hh : AwaitsAck w h) : InCritical w h := by
  unfold AwaitsAck InSection at hh
  unfold InCritical InSection
  cases hp : w.handlers h with
  | none => rw [hp] at hh; cases hh
  | some p =>
      rw [hp, Option.any_some] at hh
      rw [Option.any_some]
      unfold ackAt at hh
      split at hh
      · next htag hop => rw [htag, hop]; rfl
      · cases hh

theorem lockInv_exclusion {w : Manager} (hgood : Good LockInv w) : LockExclusion w := by
  obtain ⟨φ, ha, hI⟩ := hgood
  have hlocked : ∀ h, InCritical w h → sessionLocked w = true := fun h hh => by
    rw [sessionLocked_eq]
    exact hI.set h ((inCritical_iff ha).1 hh)
  refine ⟨fun h k hh hk => ?_, hlocked, fun h hh env name => ?_⟩
  · exact hI.unique h k ((inCritical_iff ha).1 hh) ((inCritical_iff ha).1 hk)
  · obtain ⟨session, hs⟩ := ha.live
    have hl := hlocked h (awaitsAck_critical hh)
    unfold sessionLocked at hl
    rw [hs] at hl
    have hs' : (env.apply w.shared).session = some (0, session) := hs
    exact release_seg hs' hl name

theorem leavesUnlocked_phases {w w' : Manager} {φ φ' : HandlerId → Option Phase}
    (ha : sessionProtocol.Abides w φ) (ha' : sessionProtocol.Abides w' φ')
    (hleave : LeavesUnlocked w w') {i : HandlerId} (hin : PhaseIn Phase.processing φ i)
    (hout : ¬ PhaseIn Phase.processing φ' i) : (View.of w.shared).lock = false := by
  rw [← sessionLocked_eq]
  have hparked : InProcessing w i := (inProcessing_iff ha).2 hin
  exact hleave i (inSection_lt ha hparked) hparked fun h => hout ((inProcessing_iff ha').1 h)

/-- In every run in which nobody leaves `process_pending_inputs` while the
    session is locked, the session lock is a lock. -/
theorem lock_exclusion {hctx : HandlerContext} {session : SessionType}
    (hfresh : FreshSession hctx session) {w : Manager}
    (hrun : Runs step (fun w e w' => Legal e ∧ LeavesUnlocked w w') (idle hctx) w)
    (hw : w.halted = none) : LockExclusion w := by
  refine lockInv_exclusion (runs_good hrun (fun _ _ _ hc => hc.1) ?_ ?_ hw)
  · exact good_idle ⟨session, hfresh.entry⟩ guarded_idle
  · intro w w' φ φ' e i rpc ph v₀ t hc ha ha' hI hturn
    exact turn_lock hturn hI (leavesUnlocked_phases ha ha' hc.2)

end ServerManager

/-! ### On the sample session -/

namespace ServerManager

open Coroutine

attribute [local instance] keccak256

/-- An AdvanceState leaves `process_pending_inputs` because its snapshot fails,
    and unlocks the session under a GetSessionStatus. -/
def stealingEvents : List Event :=
  [.request (.advanceState (sampleRequest 0)), .answered 0, .request .getSessionStatus, .failed 0]

theorem lock_stolen : ∃ w, Runs step (fun _ e _ => Legal e) (idle sampleContext) w ∧
    w.halted = none ∧ InCritical w 1 ∧ sessionLocked w = false ∧ ¬ LockExclusion w := by
  obtain ⟨w, hrun, hw⟩ : ∃ w, Runs step (fun _ e _ => Legal e) (idle sampleContext) w ∧
      (w.halted.isNone && decide (InCritical w 1) && !sessionLocked w) = true :=
    exists_run (fun _ e _ => Legal e) stealingEvents (fun _ _ _ h => h) (by decide +kernel)
  simp only [Bool.and_eq_true, Option.isNone_iff_eq_none, decide_eq_true_eq,
    Bool.not_eq_true'] at hw
  refine ⟨w, hrun, hw.1.1, hw.1.2, hw.2, fun hlock => ?_⟩
  have hlocked := hlock.locked 1 hw.1.2
  rw [hw.2] at hlocked
  cases hlocked

/-- Without the GetSessionStatus, the same AdvanceState leaves an unlocked
    session, and its successor is alone in its critical section. -/
theorem lock_exclusion_sample : ∃ w,
    Runs step (fun w e w' => Legal e ∧ LeavesUnlocked w w') (idle sampleContext) w ∧
      InCritical w 1 ∧ LockExclusion w := by
  obtain ⟨w, hrun, hw⟩ : ∃ w,
      Runs step (fun w e w' => Legal e ∧ LeavesUnlocked w w') (idle sampleContext) w ∧
        (w.halted.isNone && decide (InCritical w 1)) = true :=
    exists_run (fun w e w' => decide (Legal e ∧ LeavesUnlocked w w'))
      [.request (.advanceState (sampleRequest 0)), .answered 0, .failed 0,
        .request .getSessionStatus]
      (fun _ _ _ h => of_decide_eq_true h) (by decide +kernel)
  simp only [Bool.and_eq_true, Option.isNone_iff_eq_none, decide_eq_true_eq] at hw
  exact ⟨w, hrun, hw.2, lock_exclusion freshSession_sample hrun hw.1⟩

end ServerManager
