import ServerManager.Theory.HandOver

/-!
# One Transaction at a Time

Inputs and queries work on one machine, each inside a transaction that begins
with a snapshot. No lock guards the transactions. That there is one at a time
rests on the session lock for two queries, on the processing lock for two
inputs, and between the two on the emptiness of the queue, if the query came
first, or on the names of the handlers that are parked, if it came second.

Two things break it. The end of `process_pending_inputs` unlocks the session
under a query. And a check-in event that is one too many resumes a handler that
is parked for something else.

## Main definitions

* `LeavesParked`: An event resumes no handler that is parked for the machine.
* `WaitStep`: What a segment does to the check-in entry.
* `ExclusionInv`: The invariant.

## Theorems

* `starts_alone`: A transaction begins when there is no other.
* `turn_exclusion`: A turn keeps the invariant.
* `no_crash`: No handler finds another one waiting for a check-in.
* `transaction_exclusion`: One transaction at a time.
* `transactions_overlap`: Two of them.
-/

namespace ServerManager

open Coroutine

variable [Keccak]

/-! ### The check-in entry -/

/-- Waiting for a check-in. -/
def Phase.awaits : Phase → Bool
  | .advancing _ _ .waiting | .inspecting _ _ .waiting => true
  | _ => false

/-- What a segment does to the check-in entry. -/
inductive WaitStep (i : HandlerId) (ph : Phase) (v : View) (t : Option Phase) (v' : View) : Prop
  | keeps (hsame : v'.waiting.map CheckinContext.coroutine =
      v.waiting.map CheckinContext.coroutine) (hph : ph.awaits = false)
  | clears (hnone : v'.waiting = none)
  | registers {c : CheckinContext} (hsome : v'.waiting = some c) (hc : c.coroutine = i)
      (ht : t.any Phase.awaits = true)

omit [Keccak] in
/-- A handler that waited for a check-in has erased the entry, and one that did
    not has left it alone. -/
theorem waitStep_settled {i : HandlerId} {ph : Phase} {stage : Stage} {v v' : View}
    {t : Option Phase} (hw : v'.waiting = settled stage v.waiting)
    (hph : stage ≠ .waiting → ph.awaits = false) : WaitStep i ph v t v' := by
  cases stage with
  | waiting => exact .clears hw
  | snapshot => exact .keeps (congrArg _ hw) (hph Stage.noConfusion)
  | calling => exact .keeps (congrArg _ hw) (hph Stage.noConfusion)

omit [Keccak] in
theorem waitStep_waits {i : HandlerId} {ph ph' : Phase} {stage stage' : Stage} {v v' : View}
    (hw : Waits i stage v.waiting stage' v'.waiting) (hph : stage ≠ .waiting → ph.awaits = false)
    (hph' : stage' = .waiting → ph'.awaits = true) : WaitStep i ph v (some ph') v' := by
  cases stage' with
  | snapshot => exact absurd hw id
  | calling => exact waitStep_settled hw hph
  | waiting =>
      rcases hw with ⟨-, alarm, hnew⟩
      exact .registers hnew rfl (hph' rfl)

theorem taints_waiting {i : HandlerId} {v v' : View} {t : Option Phase} (ht : Taints i v t v') :
    v'.waiting = v.waiting := by
  cases ht <;> rfl

omit [Keccak] in
theorem wake_waiting (v : View) (g : Option HandlerId) : (v.wake g).waiting = v.waiting := by
  cases g <;> rfl

omit [Keccak] in
theorem awaits_of_stage {stage : Stage} (hstage : stage ≠ .waiting) (index number : UInt64)
    (m : Option HandlerId) : (Phase.advancing index number stage).awaits = false ∧
      (Phase.inspecting index m stage).awaits = false := by
  cases stage with
  | waiting => exact absurd rfl hstage
  | snapshot => exact ⟨rfl, rfl⟩
  | calling => exact ⟨rfl, rfl⟩

/-- Every step keeps, clears or registers the entry. -/
theorem trans_waiting {i : HandlerId} {rpc : Rpc} {ph : Phase} {v v' : View} {t : Option Phase}
    (hstep : Trans i rpc ph v t v') : WaitStep i ph v t v' := by
  cases hstep with
  | finish _ _ _ _ _ _ _ hf => cases hf <;> exact .keeps rfl rfl
  | stored _ hf => cases hf <;> exact .keeps rfl rfl
  | start hs hwait => exact .clears hwait
  | acceptedTaint hwhy ht =>
      have hw := taints_waiting ht
      exact .keeps (congrArg _ hw) rfl
  | @advance _ _ index number _ _ _ _ hf hw =>
      exact waitStep_waits hw (fun h => (awaits_of_stage h index number none).1)
        (by rintro rfl; rfl)
  | @advanceTaint _ _ _ index number _ _ _ hf ht =>
      have hw := taints_waiting ht
      exact waitStep_settled hw fun h => (awaits_of_stage h index number none).1
  | @advanceFail _ _ index number =>
      exact waitStep_settled rfl fun h => (awaits_of_stage h index number none).1
  | @advancePark _ _ index number =>
      exact waitStep_settled rfl fun h => (awaits_of_stage h index number none).1
  | @advanceExit _ _ index number =>
      exact waitStep_settled rfl fun h => (awaits_of_stage h index number none).1
  | queuedRefuse => exact .keeps (congrArg _ (wake_waiting v _)) rfl
  | @inspect _ _ index m _ _ _ _ hf hw =>
      exact waitStep_waits hw (fun h => (awaits_of_stage h index 0 m).2) (by rintro rfl; rfl)
  | @inspectFail _ _ index m _ _ f _ hf =>
      exact waitStep_settled rfl fun h => (awaits_of_stage h index 0 m).2
  | @inspectDone _ _ index m =>
      exact waitStep_settled rfl fun h => (awaits_of_stage h index 0 m).2
  | inspected => exact .keeps (congrArg _ (wake_waiting v _)) rfl
  | checkIn hwait => exact .keeps (by rw [hwait]; rfl) rfl
  | deadline hwait => exact .keeps (by rw [hwait]; rfl) rfl
  | _ => exact .keeps rfl rfl

/-! ### The invariant -/

/-- Working on a query. -/
def Phase.inspects : Phase → Bool
  | .inspecting _ _ _ => true
  | _ => false

/-- One transaction at a time, and why. -/
structure ExclusionInv (φ : HandlerId → Option Phase) (v : View) : Prop where
  solo : SoloInv φ v
  lock : LockInv φ v
  sole : ∀ k l, PhaseIn Phase.transaction φ k → PhaseIn Phase.transaction φ l → k = l
  /-- No query is worked on in a tainted session. -/
  tainted : v.tainted = true → ∀ k, ¬ PhaseIn Phase.inspects φ k
  asked : ∀ k ph, φ k = some ph → ph.Asked v.holder
  /-- A query that waits for nobody is worked on while there are no inputs. -/
  direct : ∀ k index stage, φ k = some (.inspecting index none stage) → v.inputs = []
  tokens : v.tainted = false → (v.holder = none ∨ ∃ k, PhaseIn Phase.asking φ k) → Tokens φ v
  waiting : ∀ h, v.waiting.map CheckinContext.coroutine = some h → PhaseIn Phase.awaits φ h

section Turns

variable {w : Manager} {φ φ' : HandlerId → Option Phase} {e : Event} {i : HandlerId} {rpc : Rpc}
  {ph : Phase} {v₀ v' : View} {t : Option Phase}

/-- The names a handler finds when it begins to run. -/
theorem ExclusionInv.loose (hI : ExclusionInv φ (View.of w.shared))
    (henters : Enters w φ e i rpc ph v₀)
    (hdirect : directTarget w e = some i → ¬ PhaseIn Phase.parked φ i) (htaint : v₀.tainted = false)
    (hlive : v₀.holder = none ∨ ∃ k, PhaseIn Phase.asking φ k) : Loose i φ v₀ := by
  refine enter_tokens (hI.tokens ?_ ?_) henters hdirect
  · rw [← henters.tainted]
    exact htaint
  · rw [← henters.holder]
    exact hlive

omit [Keccak] in
/-- While a query has the machine, or is about to get it, the one that processes
    inputs is parked. -/
theorem ExclusionInv.owner (hI : ExclusionInv φ (View.of w.shared)) {v : View} {k a : HandlerId}
    {phk : Phase} (hL : Loose i φ v) (hφ : φ k = some phk) (hslot : phk.slot v.holder = some a)
    (hk : phk.parked = false ∨ k = i) {l : HandlerId} (hl : PhaseIn Phase.processing φ l) :
    l ≠ i ∧ ∃ j, φ l = some (.handedOff j) := by
  rcases hL.slot a ⟨k, phk, hφ, hslot⟩ with ⟨hp, -, hai⟩
  rcases phaseIn_iff.1 hp with ⟨pha, hφa, hpark⟩
  cases pha with
  | handedOff j =>
      have hla := hI.solo.work.processing.unique l a hl (phaseIn_of hφa rfl)
      exact ⟨hla ▸ hai, j, hla ▸ hφa⟩
  | queued j =>
      have hak : a = k := hI.lock.unique a k (phaseIn_of hφa rfl)
        (phaseIn_of hφ (slot_critical hslot))
      rcases hk with hpark' | rfl
      · rw [hak, hφ] at hφa
        cases hφa
        cases hpark'
      · exact absurd hak hai
  | _ => cases hpark

/-- A transaction begins when there is no other. -/
theorem starts_alone {ph' : Phase} (hI : ExclusionInv φ (View.of w.shared))
    (henters : Enters w φ e i rpc ph v₀)
    (hdirect : directTarget w e = some i → ¬ PhaseIn Phase.parked φ i)
    (hs : Starts i rpc ph v₀ ph' v') {k : HandlerId} (hk : k ≠ i) :
    ¬ PhaseIn Phase.transaction φ k := by
  intro hin
  rcases phaseIn_iff.1 hin with ⟨phk, hφk, htrans⟩
  have hlock : ph.critical = true → ∀ index m stage, phk ≠ .inspecting index m stage := by
    rintro hph index m stage rfl
    exact hk (hI.lock.unique k i (phaseIn_of hφk rfl) ((henters.inside rfl).2 hph))
  have hproc : ph.processing = true → ∀ index number stage, phk ≠ .advancing index number stage := by
    rintro hph index number stage rfl
    exact hk (hI.solo.work.processing.unique k i (phaseIn_of hφk rfl) ((henters.inside rfl).2 hph))
  have hinput : ∀ index number stage, phk = .advancing index number stage → v₀.inputs ≠ [] := by
    rintro index number stage rfl hempty
    rcases hI.solo.work.holds k _ hφk with ⟨rfl, -, epoch, he, -, hpend⟩
    rw [henters.inputs, inputs_of_record he] at hempty
    exact hpend hempty
  have hsingle := hI.solo.single_enter henters
  cases hs with
  | accepted hheld he hlen hfree =>
      rw [henters.processing] at hfree
      cases phk with
      | advancing => exact hI.solo.work.processing.none hfree k (phaseIn_of hφk rfl)
      | inspecting index m stage => exact hlock rfl index m stage rfl
      | _ => cases htrans
  | handedOff he hpend =>
      cases phk with
      | advancing index number stage => exact hproc rfl index number stage rfl
      | inspecting index m stage =>
          -- the handler came out of the queue, so no query will put it there again
          have hclean : v₀.tainted = false := by
            by_contra htaint
            rw [Bool.not_eq_false, henters.tainted] at htaint
            exact hI.tainted htaint k (phaseIn_of hφk rfl)
          cases m with
          | none =>
              have hrec := records_some he
              rw [hsingle _ _ hrec] at hrec
              have hempty := hI.direct k index stage hφk
              rw [← henters.inputs, inputs_of_record hrec] at hempty
              exact hpend hempty
          | some a =>
              have hL := hI.loose henters hdirect hclean (Or.inr ⟨k, phaseIn_of hφk rfl⟩)
              have howner := hI.owner hL hφk rfl (Or.inl rfl) ((henters.inside rfl).2 rfl)
              exact howner.1 rfl
      | _ => cases htrans
  | recorded => exact hk (hI.sole k i hin ((henters.inside rfl).2 rfl))
  | inspect hfree htaint he hq hpend =>
      rw [henters.lock] at hfree
      cases phk with
      | advancing index number stage =>
          refine hinput index number stage rfl ?_
          rw [inputs_of_record (records_some he)]
          exact hpend
      | inspecting => exact hI.lock.none hfree k (phaseIn_of hφk rfl)
      | _ => cases htrans
  | @queued _ _ index epoch q f htaint he hq hf =>
      have hφi : φ i = some (.queued index) := henters.parked Phase.noConfusion
      cases phk with
      | advancing j number stage =>
          rcases hI.asked i _ hφi with ⟨a, ha⟩
          rw [← henters.holder] at ha
          have hL := hI.loose henters hdirect htaint (Or.inr ⟨i, phaseIn_of hφi rfl⟩)
          have hslot : (Phase.queued index).slot v₀.holder = some a := by rw [ha]; rfl
          rcases hI.owner hL hφi hslot (Or.inr rfl) (phaseIn_of hφk rfl) with ⟨-, j', hφ'⟩
          rw [hφk] at hφ'
          cases hφ'
      | inspecting j m stage => exact hlock rfl j m stage rfl
      | _ => cases htrans

/-- Who is in a transaction was in one, or begins one. -/
theorem trans_transaction {ph' : Phase} (hstep : Trans i rpc ph v₀ (some ph') v')
    (hin : ph'.transaction = true) : ph.transaction = true ∨ Starts i rpc ph v₀ ph' v' := by
  cases hstep with
  | start hs => exact Or.inr hs
  | finish _ _ _ _ _ _ _ hf => cases hf <;> cases hin
  | stored _ hf => cases hf <;> cases hin
  | acceptedTaint _ ht => cases ht; cases hin
  | advanceTaint _ ht => cases ht; cases hin
  | advance => exact Or.inl rfl
  | inspect => exact Or.inl rfl
  | _ => cases hin

/-- A query is worked on since before, or in a session that is not tainted. -/
theorem trans_inspects (hstep : Trans i rpc ph v₀ t v') (hin : t.any Phase.inspects = true) :
    ph.inspects = true ∨ v₀.tainted = false := by
  cases hstep with
  | start hs =>
      cases hs with
      | inspect _ htaint => exact Or.inr htaint
      | queued htaint => exact Or.inr htaint
      | _ => cases hin
  | finish _ _ _ _ _ _ _ hf => cases hf <;> cases hin
  | stored _ hf => cases hf <;> cases hin
  | acceptedTaint _ ht => cases ht <;> cases hin
  | advanceTaint _ ht => cases ht <;> cases hin
  | inspect => exact Or.inl rfl
  | _ => cases hin

/-- A session is tainted by a handler that holds the lock or has the machine,
    and that does not work on a query any more. -/
theorem trans_tainting (hstep : Trans i rpc ph v₀ t v') (hclean : v₀.tainted = false)
    (htaint : v'.tainted = true) :
    (ph.critical = true ∨ ph.transaction = true) ∧ t.any Phase.inspects = false := by
  have hsame : v'.tainted = v₀.tainted →
      (ph.critical = true ∨ ph.transaction = true) ∧ t.any Phase.inspects = false := by
    intro heq
    rw [heq, hclean] at htaint
    cases htaint
  cases hstep with
  | finish _ _ _ _ _ _ _ hf => cases hf <;> exact hsame rfl
  | stored _ hf => cases hf <;> exact hsame rfl
  | start hs => cases hs <;> exact hsame rfl
  | acceptedTaint hwhy ht => cases ht <;> exact ⟨Or.inl rfl, rfl⟩
  | advanceTaint hf ht => cases ht <;> exact ⟨Or.inr rfl, rfl⟩
  | queuedRefuse => exact ⟨Or.inl rfl, rfl⟩
  | inspectFail => exact ⟨Or.inl rfl, rfl⟩
  | inspected => exact ⟨Or.inl rfl, rfl⟩
  | _ => exact hsame rfl

/-- One transaction at a time, after a turn. -/
theorem turn_sole (hturn : Turn w φ e i rpc ph v₀ t φ' v')
    (hdirect : directTarget w e = some i → ¬ PhaseIn Phase.parked φ i)
    (hI : ExclusionInv φ (View.of w.shared)) :
    ∀ k l, PhaseIn Phase.transaction φ' k → PhaseIn Phase.transaction φ' l → k = l := by
  by_cases hin : t.any Phase.transaction = true
  · have hnone : ∀ k, k ≠ i → ¬ PhaseIn Phase.transaction φ k := by
      intro k hk hkin
      rcases (Option.any_eq_true ..).1 hin with ⟨ph', rfl, hph'⟩
      rcases trans_transaction hturn.trans hph' with hph | hs
      · exact hk (hI.sole k i hkin ((hturn.enters.inside rfl).2 hph))
      · exact starts_alone hI hturn.enters hdirect hs hk hkin
    have honly : ∀ k, PhaseIn Phase.transaction φ' k → k = i := by
      intro k hk
      by_contra hne
      exact hnone k hne ((hturn.elsewhere (fun _ => rfl) hne).1 hk)
    exact fun k l hk hl => (honly k hk).trans (honly l hl).symm
  · rw [Bool.not_eq_true] at hin
    intro k l hk hl
    exact hI.sole k l (hturn.outside (fun _ => rfl) hin hk).2 (hturn.outside (fun _ => rfl) hin hl).2

theorem turn_uninspected (hturn : Turn w φ e i rpc ph v₀ t φ' v')
    (hI : ExclusionInv φ (View.of w.shared)) (htaint : v'.tainted = true) (k : HandlerId) :
    ¬ PhaseIn Phase.inspects φ' k := by
  intro hk
  cases hwas : v₀.tainted with
  | true =>
      have hnone := hI.tainted (hturn.enters.tainted ▸ hwas)
      have hout : t.any Phase.inspects = false := by
        by_contra hin
        rw [Bool.not_eq_false] at hin
        rcases trans_inspects hturn.trans hin with hph | hclean
        · exact hnone i ((hturn.enters.inside rfl).2 hph)
        · rw [hwas] at hclean
          cases hclean
      exact hnone k (hturn.outside (fun _ => rfl) hout hk).2
  | false =>
      rcases trans_tainting hturn.trans hwas htaint with ⟨hwhy, hout⟩
      rcases hturn.outside (fun _ => rfl) hout hk with ⟨hne, hin⟩
      rcases phaseIn_iff.1 hin with ⟨phk, hφk, hinspects⟩
      cases phk with
      | inspecting index m stage =>
          rcases hwhy with hph | hph
          · exact hne (hI.lock.unique k i (phaseIn_of hφk rfl) ((hturn.enters.inside rfl).2 hph))
          · exact hne (hI.sole k i (phaseIn_of hφk rfl) ((hturn.enters.inside rfl).2 hph))
      | _ => cases hinspects

theorem turn_direct (hturn : Turn w φ e i rpc ph v₀ t φ' v') (hstep : HandStep i ph v₀ t v')
    (hinput : InputStep ph v₀ t v') (hI : ExclusionInv φ (View.of w.shared)) :
    ∀ k index stage, φ' k = some (.inspecting index none stage) → v'.inputs = [] := by
  intro k index stage hφ'
  -- no input arrives, because the session is locked or about to be
  have hsame : v₀.inputs = [] → (∀ j, t ≠ some (.accepted j)) ∨ v₀.lock = true →
      v'.inputs = [] := by
    intro hempty hwhy
    cases hinput with
    | rest hack hproc heq => rw [heq, hempty]
    | accept input hph ht hfree =>
        rcases hwhy with hnot | hheld
        · exact absurd ht (hnot _)
        · rw [hfree] at hheld
          cases hheld
    | pass hph hack hproc heq => rw [heq, hempty]
    | begin hph hack hproc heq => rw [heq, hempty]
    | stop hph hack hproc heq => rw [heq, hempty]
    | pop hph hack hne => exact absurd hempty hne
  by_cases hk : k = i
  · rw [hk, hturn.after] at hφ'
    subst hφ'
    refine hsame ?_ (Or.inl fun j h => by cases h)
    cases hstep with
    | still hq hh hph hout hask => cases hask
    | queue hph ht => cases ht
    | direct hph ht hfree hnone hempty => exact hempty
    | carry hph ht hout hleft hslot =>
        cases ht
        have hφ : φ i = some ph := hturn.enters.parked (by rintro rfl; cases hph)
        cases ph with
        | queued j =>
            rcases hI.asked i _ hφ with ⟨a, ha⟩
            rw [← hturn.enters.holder] at ha
            have hjoin : none = v₀.holder.join := hslot
            rw [ha] at hjoin
            cases hjoin
        | inspecting j m s =>
            have hm : none = m := hslot
            subst hm
            rw [hturn.enters.inputs]
            exact hI.direct i j s hφ
        | _ => cases hph
    | give hph ht => cases ht
    | park hph ht => cases ht
    | drop hph ht hout hask => cases hask
    | taint htaint hph hnot hout hask => cases hask
  · have hφ := hturn.was hk hφ'
    refine hsame ?_ (Or.inr ?_)
    · rw [hturn.enters.inputs]
      exact hI.direct k index stage hφ
    · rw [hturn.enters.lock]
      exact hI.lock.set k (phaseIn_of hφ rfl)

theorem Enters.waiting (henters : Enters w φ e i rpc ph v₀) :
    v₀.waiting.map CheckinContext.coroutine =
      (View.of w.shared).waiting.map CheckinContext.coroutine := by
  cases henters.cause with
  | arrived _ _ _ _ hw => rw [hw]
  | completed _ _ _ hw => rw [hw]
  | dequeued _ _ _ hw => rw [hw]
  | resumed _ _ _ _ _ hw => exact hw

theorem turn_waiting (hturn : Turn w φ e i rpc ph v₀ t φ' v')
    (hI : ∀ h, (View.of w.shared).waiting.map CheckinContext.coroutine = some h →
      PhaseIn Phase.awaits φ h) :
    ∀ h, v'.waiting.map CheckinContext.coroutine = some h → PhaseIn Phase.awaits φ' h := by
  intro h hh
  cases trans_waiting hturn.trans with
  | keeps hsame hph =>
      rw [hsame, hturn.enters.waiting] at hh
      have hwas := hI h hh
      have hne : h ≠ i := by
        rintro rfl
        rw [hturn.enters.inside rfl, hph] at hwas
        cases hwas
      exact (hturn.elsewhere (fun _ => rfl) hne).2 hwas
  | clears hnone =>
      rw [hnone] at hh
      cases hh
  | registers hsome hc ht =>
      rw [hsome, Option.map_some, hc] at hh
      cases hh
      exact hturn.inside.2 ht

/-- A turn keeps the invariant, if it neither steals the lock nor resumes a
    handler that is parked for the machine. -/
theorem turn_exclusion (hturn : Turn w φ e i rpc ph v₀ t φ' v') (honly : e.only SoloRpc)
    (ha : sessionProtocol.Abides w φ)
    (hdirect : directTarget w e = some i → ¬ PhaseIn Phase.parked φ i)
    (hleave : PhaseIn Phase.processing φ i → ¬ PhaseIn Phase.processing φ' i →
      (View.of w.shared).lock = false)
    (hI : ExclusionInv φ (View.of w.shared)) : ExclusionInv φ' v' := by
  have henters := hturn.enters
  rcases hI.solo.work.enter henters with ⟨hv₀, hph⟩
  have hstep : HandStep i ph v₀ t v' := trans_hand hturn.trans (hI.solo.solo honly ha henters)
    hv₀.epochs.present (hI.solo.single_enter henters)
  refine ⟨turn_solo hturn honly ha hI.solo, turn_lock hturn hI.lock hleave,
    turn_sole hturn hdirect hI, turn_uninspected hturn hI, turn_asked hturn hstep hI.lock hI.asked,
    turn_direct hturn hstep (turn_inputs hturn honly ha hI.solo) hI, fun htaint hlive => ?_,
    turn_waiting hturn hI.waiting⟩
  have hclean : v₀.tainted = false := by
    by_contra hwas
    rw [Bool.not_eq_false] at hwas
    rw [trans_tainted hturn.trans hwas] at htaint
    cases htaint
  have hL := hI.loose henters hdirect hclean (turn_live hturn hstep hlive htaint)
  refine turn_tokens hturn hstep hI.lock hL (fun hask => ?_) (fun hin k index m stage hφ => ?_)
    htaint hlive
  · have hφ : φ i = some ph := henters.parked (by rintro rfl; cases hask)
    rw [henters.holder]
    exact (hI.asked i ph hφ).ne_none hask
  · exact hI.sole k i (phaseIn_of hφ rfl) ((henters.inside rfl).2 hin)

/-- No handler finds another one waiting for a check-in. -/
theorem no_crash (hI : ExclusionInv φ (View.of w.shared)) (henters : Enters w φ e i rpc ph v₀)
    (hdirect : directTarget w e = some i → ¬ PhaseIn Phase.parked φ i) :
    ¬ Crashes i rpc ph v₀ .alreadyWaitingCheckin := by
  -- whoever waits is in a transaction, and is not the one that runs
  have hwaiter : ∀ {stage}, (stage ≠ .waiting → ph.awaits = false) →
      settled stage v₀.waiting ≠ none → ∃ k, k ≠ i ∧ PhaseIn Phase.transaction φ k := by
    intro stage hph hsome
    have hstage : stage ≠ .waiting := by
      rintro rfl
      exact hsome rfl
    have hentry : v₀.waiting ≠ none := by
      cases stage with
      | waiting => exact absurd rfl hstage
      | snapshot => exact hsome
      | calling => exact hsome
    rcases Option.ne_none_iff_exists'.1 hentry with ⟨c, hc⟩
    have hwas := hI.waiting c.coroutine (by rw [← henters.waiting, hc]; rfl)
    refine ⟨c.coroutine, ?_, ?_⟩
    · intro heq
      rw [heq, henters.inside rfl, hph hstage] at hwas
      cases hwas
    · rcases phaseIn_iff.1 hwas with ⟨phk, hφk, hk⟩
      refine phaseIn_of hφk ?_
      cases phk <;> first | rfl | cases hk
  intro hcrash
  cases hcrash with
  | start hs hwait =>
      have hsome : ∃ k, k ≠ i ∧ PhaseIn Phase.transaction φ k := by
        cases hs with
        | accepted => exact @hwaiter .calling (fun _ => rfl) hwait
        | handedOff => exact @hwaiter .calling (fun _ => rfl) hwait
        | @recorded _ _ index number stage =>
            exact hwaiter (fun h => (awaits_of_stage h index number none).1) hwait
        | inspect => exact @hwaiter .calling (fun _ => rfl) hwait
        | queued => exact @hwaiter .calling (fun _ => rfl) hwait
      rcases hsome with ⟨k, hk, hin⟩
      exact starts_alone hI henters hdirect hs hk hin
  | @advancing _ index number stage hwait =>
      rcases hwaiter (fun h => (awaits_of_stage h index number none).1) hwait with ⟨k, hk, hin⟩
      exact hk (hI.sole k i hin ((henters.inside rfl).2 rfl))
  | @inspecting _ index m stage hwait =>
      rcases hwaiter (fun h => (awaits_of_stage h index 0 m).2) hwait with ⟨k, hk, hin⟩
      exact hk (hI.sole k i hin ((henters.inside rfl).2 rfl))
  | other hx => exact hx rfl

end Turns

/-! ### Runs -/

/-- The points at which a handler is parked for the machine. -/
def parkedAt : Rpc → Op → Bool
  | .advanceState _, .handOff | .inspectState _, .awaitInputs => true
  | _, _ => false

abbrev InPark : Manager → HandlerId → Prop := InSection parkedAt

omit [Keccak] in
theorem parked_of_phaseAt {rpc : Rpc} {ph : Phase} {op : Op} (hat : PhaseAt rpc ph op) :
    parkedAt rpc op = ph.parked := by
  cases hat with
  | reporting => cases rpc <;> rfl
  | refused => cases rpc <;> rfl
  | resuming => cases rpc <;> rfl
  | _ => rfl

theorem inPark_iff {w : Manager} {φ : HandlerId → Option Phase}
    (ha : sessionProtocol.Abides w φ) {h : HandlerId} :
    InPark w h ↔ PhaseIn Phase.parked φ h := inSection_iff ha parked_of_phaseAt h

/-- This event resumes no handler on the spot that is parked for the machine. -/
def LeavesParked (w : Manager) (e : Event) : Prop := ∀ h ∈ directTarget w e, ¬ InPark w h

instance (w : Manager) (e : Event) : Decidable (LeavesParked w e) :=
  inferInstanceAs (Decidable (∀ h ∈ directTarget w e, _))

/-- The events of a run, and the conditions on its steps. -/
abbrev ExclusiveStep (w : Manager) (e : Event) (w' : Manager) : Prop :=
  e.only SoloRpc ∧ LeavesUnlocked w w' ∧ LeavesParked w e

theorem leavesParked_phases {w : Manager} {φ : HandlerId → Option Phase} {e : Event}
    (ha : sessionProtocol.Abides w φ) (hleave : LeavesParked w e) {i : HandlerId}
    (hdirect : directTarget w e = some i) : ¬ PhaseIn Phase.parked φ i :=
  fun hparked => hleave i hdirect ((inPark_iff ha).2 hparked)

/-- One transaction at a time, and no second check-in wait. -/
structure TransactionExclusion (w : Manager) : Prop where
  exclusive : w.halted = none → ∀ h k, InTransaction w h → InTransaction w k → h = k
  unique : w.halted ≠ some .alreadyWaitingCheckin

omit [Keccak] in
theorem exclusionInv_fresh {v : View} {e : EpochType} (hv : FreshView v e) :
    ExclusionInv (fun _ => none) v := by
  refine
    { solo := soloInv_fresh hv
      lock := guarded_idle
      sole := fun k l hk => by cases hk
      tainted := fun _ k hk => by cases hk
      asked := fun k ph hφ => by cases hφ
      direct := fun k index stage hφ => by cases hφ
      tokens := fun _ _ => ?_
      waiting := fun h hh => ?_ }
  · refine ⟨fun h hmem => ?_, fun h => ?_, fun h hslot => ?_⟩
    · rw [hv.queue] at hmem
      cases hmem
    · rw [hv.queue]
      exact Nat.zero_le 1
    · rcases hslot with ⟨k, ph, hφ, -⟩
      cases hφ
  · rw [hv.waiting] at hh
    cases hh

theorem runs_exclusion {w₀ w : Manager} (hrun : Runs step ExclusiveStep w₀ w)
    (h₀ : Good ExclusionInv w₀) (hw : w.halted = none) : Good ExclusionInv w := by
  refine runs_good hrun (fun _ _ _ hc => legal_of_solo hc.1) h₀ ?_ hw
  intro w w' φ φ' e i rpc ph v₀ t hc ha ha' hI hturn
  exact turn_exclusion hturn hc.1 ha (leavesParked_phases ha hc.2.2)
    (leavesUnlocked_phases ha ha' hc.2.1) hI

/-- In every run of AdvanceState, InspectState and the reports in which nobody
    leaves `process_pending_inputs` while the session is locked, and no check-in
    event resumes a handler that is parked for the machine, there is one
    transaction at a time. -/
theorem transaction_exclusion {hctx : HandlerContext} {session : SessionType}
    (hfresh : FreshSession hctx session) {w : Manager}
    (hrun : Runs step ExclusiveStep (idle hctx) w) : TransactionExclusion w := by
  rcases freshView_of hfresh with ⟨e₀, hv⟩
  have h₀ : Good ExclusionInv (idle hctx) :=
    good_idle ⟨session, hfresh.entry⟩ (exclusionInv_fresh hv)
  refine ⟨fun hw h k hh hk => ?_, ?_⟩
  · rcases runs_exclusion hrun h₀ hw with ⟨φ, ha, hI⟩
    exact hI.sole h k ((inTransaction_iff ha).1 hh) ((inTransaction_iff ha).1 hk)
  · -- the last step is one of a world that was running
    intro hhalt
    cases hrun with
    | refl => cases hhalt
    | @tail w₁ _ e hbefore hstep hc =>
        have hw₁ := step_running hstep
        rcases runs_exclusion hbefore h₀ hw₁ with ⟨φ, ha, hI⟩
        rcases step_moves (legal_of_solo hc.1) ha hw₁ hstep with ⟨x, hx, hcrash⟩ | ⟨hnone, -⟩
        · rw [hhalt] at hx
          cases hx
          rcases hcrash (Or.inl rfl) with ⟨i, rpc, ph, v₀, henters, hcrash⟩
          exact no_crash hI henters (leavesParked_phases ha hc.2.2) hcrash
        · rw [hnone] at hhalt
          cases hhalt

end ServerManager

/-! ### On the sample session -/

namespace ServerManager

open Coroutine

attribute [local instance] keccak256

/-- A query takes the machine over after the first input. When it is answered,
    a second query comes and finds no input. The first AdvanceState comes out of
    the completion queue, has nothing to do and unlocks the session, and the
    second one is let in. -/
def overlappingEvents : List Event :=
  [.request (.advanceState (sampleRequest 0)), .answered 0, .request (.inspectState sampleQuery),
    .answered 0, .checkIn, .answered 2, .answered 0, .checkIn, .answered 3, .answered 0,
    .resumed, .answered 1, .request (.inspectState []), .resumed,
    .request (.advanceState (sampleRequest 1))]

/-- If the second AdvanceState is acknowledged then, a query and an input are on
    the machine at once. If the query waits for its check-in by that time, the
    process ends. -/
theorem transactions_overlap : (∃ w,
    Runs step (fun _ e _ => e.only SoloRpc) (idle sampleContext) w ∧ w.halted = none ∧
      InTransaction w 4 ∧ InTransaction w 5 ∧ ¬ TransactionExclusion w) ∧
    ∃ w, Runs step (fun _ e _ => e.only SoloRpc) (idle sampleContext) w ∧
      w.halted = some .alreadyWaitingCheckin := by
  refine ⟨?_, ?_⟩
  · obtain ⟨w, hrun, hw⟩ : ∃ w, Runs step (fun _ e _ => e.only SoloRpc) (idle sampleContext) w ∧
        (w.halted.isNone && decide (InTransaction w 4) && decide (InTransaction w 5)) = true :=
      exists_run (fun _ e _ => e.only SoloRpc) (overlappingEvents ++ [.answered 5])
        (fun _ _ _ h => h) (by decide +kernel)
    simp only [Bool.and_eq_true, Option.isNone_iff_eq_none, decide_eq_true_eq] at hw
    rcases hw with ⟨⟨hhalt, h₄⟩, h₅⟩
    refine ⟨w, hrun, hhalt, h₄, h₅, fun hexcl => ?_⟩
    exact absurd (hexcl.exclusive hhalt 4 5 h₄ h₅) (by decide)
  · obtain ⟨w, hrun, hw⟩ : ∃ w, Runs step (fun _ e _ => e.only SoloRpc) (idle sampleContext) w ∧
        (w.halted == some .alreadyWaitingCheckin) = true :=
      exists_run (fun _ e _ => e.only SoloRpc) (overlappingEvents ++ [.answered 4, .answered 5])
        (fun _ _ _ h => h) (by decide +kernel)
    exact ⟨w, hrun, beq_iff_eq.1 hw⟩

/-- A query takes the machine over between two inputs, and has it alone. -/
theorem transaction_exclusion_sample : ∃ w,
    Runs step ExclusiveStep (idle sampleContext) w ∧ InTransaction w 2 ∧ InHandOff w 0 ∧
      TransactionExclusion w := by
  obtain ⟨w, hrun, hw⟩ : ∃ w, Runs step ExclusiveStep (idle sampleContext) w ∧
      (decide (InTransaction w 2) && decide (InHandOff w 0)) = true :=
    exists_run (fun w e w' => decide (ExclusiveStep w e w'))
      [.request (.advanceState (sampleRequest 0)), .answered 0,
        .request (.advanceState (sampleRequest 1)), .answered 1, .request (.inspectState []),
        .answered 0, .checkIn, .answered 3, .answered 0, .checkIn, .answered 4, .answered 0,
        .resumed]
      (fun _ _ _ h => of_decide_eq_true h) (by decide +kernel)
  simp only [Bool.and_eq_true, decide_eq_true_eq] at hw
  exact ⟨w, hrun, hw.1, hw.2, transaction_exclusion freshSession_sample hrun⟩

end ServerManager
