import ServerManager.Theory.Baton
import ServerManager.Theory.Processor

/-!
# Failures While an Input Is Processed

By the time an input is processed its request was answered, so whatever goes
wrong can only be written to the session. The tainting catch clauses of
AdvanceState do that: they mark the session, let a query that is parked go on,
and answer nothing. The clause for errors that are reported to the client is
for requests that were not answered yet, and one helper on the way throws its
exception: `check_server_stub`, after a check-in, when no stub can be made for
the new address of the server. AdvanceState then answers a second time, and
nobody is told about the query.

`failure_contained` is that this is the only way. What it says of the answers
is about the whole life of the handler, so the run carries their number along.

## Main definitions

* `countingStep`: A step, with the number of answers of one handler.
* `FailsInput`: A handler gives up the input it works on.
* `StubUnmade`: The check-in came and no stub can be made.
* `Contained`: What is left of a failure.
* `CountInv`, `UntouchedInv`, `StoreInv`: The answers, the inputs and the epochs
  while the input is processed.
* `AfterInv`: The state after a tainting catch clause.

## Theorems

* `turn_count`: The answers after a turn.
* `turn_untouched`: Nobody touches the inputs before they are recorded.
* `trans_fails`: The two ways to give up an input.
* `turn_after`: The handler that gave up has nothing left to do.
* `contained_of_taint`: The tainting clauses contain a failure.
* `failure_contained`: Failures are contained exactly if the stub is made.
* `answered_twice`: A stub that is not made.
-/

namespace ServerManager

open Coroutine

variable [Keccak]

/-! ### Points -/

/-- The points at which AdvanceState works on an input. -/
def inputAt : Rpc → Op → Bool
  | .advanceState _, .call _ | .advanceState _, .checkin => true
  | _, _ => false

/-- The point at which AdvanceState waits for a check-in. -/
def inputCheckinAt : Rpc → Op → Bool
  | .advanceState _, .checkin => true
  | _, _ => false

/-- The point at which AdvanceState is parked in a catch clause. -/
def afterTaintAt : Rpc → Op → Bool
  | .advanceState _, .afterTaint => true
  | _, _ => false

/-- The points at which a response writer was asked to send something. -/
def answerAt : Rpc → Op → Bool
  | _, .finish _ | _, .finishWithError _ => true
  | _, _ => false

/-- The point at which FinishEpoch stores the machine. -/
def storeAt : Rpc → Op → Bool
  | .finishEpoch _, .call _ => true
  | _, _ => false

abbrev OnInput : Manager → HandlerId → Prop := InSection inputAt
abbrev AwaitsCheckin : Manager → HandlerId → Prop := InSection inputCheckinAt
abbrev AfterTaint : Manager → HandlerId → Prop := InSection afterTaintAt
abbrev Answered : Manager → HandlerId → Prop := InSection answerAt
abbrev InStore : Manager → HandlerId → Prop := InSection storeAt

namespace Phase

def advances : Phase → Bool
  | .advancing _ _ _ => true
  | _ => false

def awaitsCheckin : Phase → Bool
  | .advancing _ _ .waiting => true
  | _ => false

def leaves : Phase → Bool
  | .leaving => true
  | _ => false

def answered : Phase → Bool
  | .refused | .reporting | .accepted _ | .inspected _ | .checkedIn _ => true
  | _ => false

def stores : Phase → Bool
  | .storing _ => true
  | _ => false

/-- AdvanceState once its request was accepted. -/
def served : Phase → Bool
  | .accepted _ | .advancing _ _ _ | .handedOff _ | .leaving => true
  | _ => false

end Phase

section Points

variable {w : Manager} {φ : HandlerId → Option Phase} (ha : sessionProtocol.Abides w φ)
  {h : HandlerId}

include ha

theorem onInput_iff : OnInput w h ↔ PhaseIn Phase.advances φ h := by
  refine inSection_iff ha (fun {rpc ph op} hat => ?_) h
  cases hat with
  | reporting => cases rpc <;> rfl
  | refused => cases rpc <;> rfl
  | resuming => cases rpc <;> rfl
  | _ => rfl

theorem awaitsCheckin_iff : AwaitsCheckin w h ↔ PhaseIn Phase.awaitsCheckin φ h := by
  refine inSection_iff ha (fun {rpc ph op} hat => ?_) h
  cases hat with
  | reporting => cases rpc <;> rfl
  | refused => cases rpc <;> rfl
  | resuming => cases rpc <;> rfl
  | _ => rfl

theorem afterTaint_iff : AfterTaint w h ↔ PhaseIn Phase.leaves φ h := by
  refine inSection_iff ha (fun {rpc ph op} hat => ?_) h
  cases hat with
  | reporting => cases rpc <;> rfl
  | refused => cases rpc <;> rfl
  | resuming => cases rpc <;> rfl
  | _ => rfl

theorem answered_iff : Answered w h ↔ PhaseIn Phase.answered φ h := by
  refine inSection_iff ha (fun {rpc ph op} hat => ?_) h
  cases hat with
  | reporting => cases rpc <;> rfl
  | refused => cases rpc <;> rfl
  | resuming => cases rpc <;> rfl
  | _ => rfl

theorem inStore_iff : InStore w h ↔ PhaseIn Phase.stores φ h := by
  refine inSection_iff ha (fun {rpc ph op} hat => ?_) h
  cases hat with
  | reporting => cases rpc <;> rfl
  | refused => cases rpc <;> rfl
  | resuming => cases rpc <;> rfl
  | _ => rfl

end Points

omit [Keccak] in
theorem phaseIn_advances {φ : HandlerId → Option Phase} {h : HandlerId}
    (hin : PhaseIn Phase.advances φ h) :
    ∃ index number stage, φ h = some (.advancing index number stage) := by
  rcases phaseIn_iff.1 hin with ⟨ph, hφ, hph⟩
  cases ph with
  | advancing index number stage => exact ⟨index, number, stage, hφ⟩
  | _ => cases hph

/-! ### Counting answers -/

/-- The number of answers handler `h` sends in a step. -/
def answersIn (w : Manager) (e : Event) (w' : Manager) (h : HandlerId) : Nat :=
  if runsIn w e h = true ∧ Answered w' h then 1 else 0

/-- A step of the manager, with the number of answers handler `h` sent so far. -/
def countingStep (h : HandlerId) (p : Manager × Nat) (e : Event) : Option (Manager × Nat) :=
  (step p.1 e).map fun w' => (w', p.2 + answersIn p.1 e w' h)

theorem countingStep_eq {h : HandlerId} {p p' : Manager × Nat} {e : Event}
    (hstep : countingStep h p e = some p') :
    step p.1 e = some p'.1 ∧ p'.2 = p.2 + answersIn p.1 e p'.1 h := by
  rcases Option.map_eq_some_iff.1 hstep with ⟨w', hw', rfl⟩
  exact ⟨hw', rfl⟩

section Turns

variable {w w' : Manager} {φ φ' : HandlerId → Option Phase} {e : Event} {i h : HandlerId}
  {rpc : Rpc} {ph : Phase} {v₀ v' : View} {t : Option Phase}

/-- The handler whose turn it is sends an answer if that is where it parks, and
    nobody else does. -/
theorem turn_answers (hturn : Turn w φ e i rpc ph v₀ t φ' v')
    (ha' : sessionProtocol.Abides w' φ') :
    answersIn w e w' h = if h = i ∧ t.any Phase.answered = true then 1 else 0 := by
  unfold answersIn
  by_cases hi : h = i
  · subst hi
    simp only [hturn.ran, true_and, answered_iff ha', hturn.inside]
  · rw [if_neg, if_neg]
    · exact fun hand => hi hand.1
    · rintro ⟨hran, hans⟩
      rcases hturn.sole h hran with heq | hnone
      · exact hi heq
      · rw [answered_iff ha'] at hans
        unfold PhaseIn at hans
        rw [hnone] at hans
        cases hans

/-- A handler that does not exist yet has sent nothing, and AdvanceState once
    its request was accepted has sent one answer. -/
structure CountInv (h : HandlerId) (next : HandlerId) (φ : HandlerId → Option Phase) (n : Nat) :
    Prop where
  unborn : next ≤ h → n = 0
  served : PhaseIn Phase.served φ h → n = 1

/-- The only way into the part of AdvanceState in which it is served is the
    answer. -/
theorem trans_served (hstep : Trans i rpc ph v₀ t v') (hin : t.any Phase.served = true) :
    (ph = .fresh ∧ t.any Phase.answered = true) ∨
      (ph.served = true ∧ t.any Phase.answered = false) := by
  cases hstep with
  | start hs => cases hs <;> first | exact Or.inr ⟨rfl, rfl⟩ | cases hin
  | finish _ _ _ _ _ _ _ hf => cases hf <;> cases hin
  | stored _ hf => cases hf <;> cases hin
  | accept => exact Or.inl ⟨rfl, rfl⟩
  | acceptedTaint _ ht => cases ht <;> exact Or.inr ⟨rfl, rfl⟩
  | advance => exact Or.inr ⟨rfl, rfl⟩
  | advanceTaint _ ht => cases ht <;> exact Or.inr ⟨rfl, rfl⟩
  | advancePark => exact Or.inr ⟨rfl, rfl⟩
  | _ => cases hin

theorem turn_count (hturn : Turn w φ e i rpc ph v₀ t φ' v')
    (ha : sessionProtocol.Abides w φ) (ha' : sessionProtocol.Abides w' φ')
    (hnext : w.next ≤ w'.next) {n : Nat} (hI : CountInv h w.next φ n) :
    CountInv h w'.next φ' (n + answersIn w e w' h) := by
  refine ⟨fun hge => ?_, fun hin => ?_⟩
  · -- a handler that does not exist is parked nowhere
    rw [hI.unborn (Nat.le_trans hnext hge), Nat.zero_add]
    unfold answersIn
    rw [if_neg]
    rintro ⟨-, hans⟩
    exact absurd (inSection_lt ha' hans) (Nat.not_lt.2 hge)
  · rw [turn_answers hturn ha']
    by_cases hi : h = i
    · subst hi
      rcases trans_served hturn.trans (hturn.inside.1 hin) with ⟨rfl, hans⟩ | ⟨hph, hans⟩
      · rw [if_pos ⟨rfl, hans⟩]
        cases hturn.enters.cause with
        | arrived _ hnew => rw [hI.unborn (Nat.le_of_eq hnew.symm)]
        | completed hφ =>
            rcases ha.parked hφ with ⟨p, -, hat⟩
            exact absurd rfl (phaseAt_ne_fresh hat)
        | dequeued hφ =>
            rcases ha.parked hφ with ⟨p, -, hat⟩
            exact absurd rfl (phaseAt_ne_fresh hat)
        | resumed hφ =>
            rcases ha.parked hφ with ⟨p, -, hat⟩
            exact absurd rfl (phaseAt_ne_fresh hat)
      · rw [if_neg (by rw [hans]; exact fun hand => Bool.false_ne_true hand.2), Nat.add_zero]
        exact hI.served ((hturn.enters.inside rfl).2 hph)
    · rw [if_neg fun hand => hi hand.1, Nat.add_zero]
      exact hI.served ((hturn.elsewhere (fun _ => rfl) hi).1 hin)

/-! ### The inputs -/

/-- Handler `h` works on an input of an epoch whose records are still those of
    the start, and whose queue has at most grown. -/
def UntouchedInv (h : HandlerId) (index : UInt64) (e₁ : EpochType)
    (φ : HandlerId → Option Phase) (v : View) : Prop :=
  (∃ number stage, φ h = some (.advancing index number stage)) ∧
    ∃ e, v.records index = some e ∧ e.processedInputs = e₁.processedInputs ∧
      e₁.pendingInputs <+: e.pendingInputs

/-- What a step leaves of the epoch that another handler, or this one without
    recording it, works on. -/
theorem untouched_step {index : UInt64} {e₁ : EpochType} (hstep : RecordStep rpc ph v₀ v')
    (hI : EpochsOk v₀.records v₀.active v₀.notes) (hph : ph.Holds v₀) (hactive : index = v₀.active)
    (hnot : ∀ j n stage, ph = .advancing j n stage → v'.count = v₀.count)
    (hpend : ∃ e, v₀.records index = some e ∧ e.pendingInputs ≠ [])
    (hsame : ∃ e, v₀.records index = some e ∧ e.processedInputs = e₁.processedInputs ∧
      e₁.pendingInputs <+: e.pendingInputs) :
    ∃ e, v'.records index = some e ∧ e.processedInputs = e₁.processedInputs ∧
      e₁.pendingInputs <+: e.pendingInputs := by
  rcases hsame with ⟨e, he, hproc, hprefix⟩
  have hne : e.pendingInputs ≠ [] := by
    rcases hpend with ⟨e', he', hne⟩
    rw [he] at he'
    cases he'
    exact hne
  -- FinishEpoch does not go on in an epoch with an input in its queue
  have hbusy : ∀ {request e'}, FinishReady request v₀ e' ph →
      v₀.records request.activeEpochIndex = some e' → False := by
    intro request e' hready he'
    rcases hready.facts he' hph with ⟨hstate, hnil, -⟩
    rw [hI.one _ _ he' hstate, ← hactive, he] at he'
    cases he'
    exact hne hnil
  cases hstep with
  | quiet hrec =>
      rw [hrec]
      exact ⟨e, he, hproc, hprefix⟩
  | @tree j n stage g hg hph' hrec =>
      by_cases hj : index = j
      · refine ⟨g e, ?_, ?_, ?_⟩
        · rw [hrec, ← hj, Function.update_self, he]
          rfl
        · rw [(treeChange_state hg e).2.2, hproc]
        · rw [(treeChange_state hg e).2.1]
          exact hprefix
      · refine ⟨e, ?_, hproc, hprefix⟩
        rw [hrec, Function.update_of_ne hj]
        exact he
  | @record j n stage _ _ _ _ _ hph' _ _ _ _ hcount =>
      have hstill := hnot j n stage hph'
      rw [hcount] at hstill
      exact absurd hstill (by simp)
  | @accept request e' input hrpc hph' hl ht hi he' hs hn hc hin hrec =>
      rw [← hactive, he] at he'
      cases he'
      refine ⟨{ e with pendingInputs := e.pendingInputs ++ [input] }, ?_, hproc,
        hprefix.trans (List.prefix_append _ _)⟩
      rw [hrec, hactive, Function.update_self]
  | delete hrpc hph' hl he' hs hne' hrec =>
      refine ⟨e, ?_, hproc, hprefix⟩
      rw [hrec, hactive, Function.update_of_ne hne', ← hactive]
      exact he
  | finish hrpc hready he' => exact (hbusy hready he').elim
  | spoil hrpc hready he' => exact (hbusy hready he').elim
  | missing hnone => exact absurd hnone hI.present

/-- The only way on with the same input changes nothing but the trees. -/
theorem trans_advances {index number : UInt64} {stage : Stage}
    (hstep : Trans i rpc (.advancing index number stage) v₀ t v')
    (hin : t.any Phase.advances = true) (hcount : v'.count = v₀.count) :
    ∃ stage', t = some (.advancing index number stage') := by
  cases hstep with
  | start hs => cases hs; exact absurd hcount (by simp)
  | advance => exact ⟨_, rfl⟩
  | advanceTaint _ ht => cases ht <;> cases hin
  | _ => cases hin

omit [Keccak] in
/-- The invariant of those that work on inputs, for the view of an epoch that
    one of them works on. -/
theorem WorkInv.busy {v : View} (hI : WorkInv φ v) {index number : UInt64} {stage : Stage}
    (hφ : φ h = some (.advancing index number stage)) :
    index = v.active ∧ ∃ e, v.records index = some e ∧ e.pendingInputs ≠ [] := by
  rcases hI.holds h _ hφ with ⟨hactive, -, e, he, -, hne⟩
  exact ⟨hactive, e, he, hne⟩

/-- A turn after which `h` works on the same input leaves the inputs alone. -/
theorem turn_untouched (hturn : Turn w φ e i rpc ph v₀ t φ' v')
    (hW : WorkInv φ (View.of w.shared)) {index : UInt64} {e₁ : EpochType}
    (hin : PhaseIn Phase.advances φ' h) (hcount : v'.count = (View.of w.shared).count)
    (hI : UntouchedInv h index e₁ φ (View.of w.shared)) : UntouchedInv h index e₁ φ' v' := by
  rcases hW.enter hturn.enters with ⟨hv₀, hph⟩
  rcases hI with ⟨⟨number, stage, hφ⟩, hsame⟩
  rcases hv₀.busy hφ with ⟨hactive, hpend⟩
  rw [← hturn.enters.records] at hsame
  have hrec := trans_records hturn.trans
  by_cases hi : h = i
  · subst hi
    have hphase : ph = .advancing index number stage := by
      rcases hturn.enters.before with hφ' | ⟨hnone, -⟩
      · rw [hφ] at hφ'
        cases hφ'
        rfl
      · rw [hφ] at hnone
        cases hnone
    subst hphase
    rw [← hturn.enters.count] at hcount
    rcases trans_advances hturn.trans (hturn.inside.1 hin) hcount with ⟨stage', rfl⟩
    exact ⟨⟨number, stage', hturn.after⟩,
      untouched_step hrec hv₀.epochs hph hactive (fun _ _ _ _ => hcount) hpend hsame⟩
  · refine ⟨?_, untouched_step hrec hv₀.epochs hph hactive (fun j n stage' hph' => ?_) hpend hsame⟩
    · rcases hturn.others h hi with hsame' | ⟨-, g, hg⟩
      · exact ⟨number, stage, hsame'.trans hφ⟩
      · rw [hφ] at hg
        cases hg
    · -- no other handler processes inputs
      subst hph'
      refine absurd (hv₀.processing.unique h i (phaseIn_of hφ rfl) ?_) hi
      exact (hturn.enters.inside rfl).2 rfl

/-! ### Stores -/

/-- Those who work on inputs, with one FinishEpoch at a time in its store call. -/
structure StoreInv (φ : HandlerId → Option Phase) (v : View) : Prop where
  work : WorkInv φ v
  alone : ∀ k l, PhaseIn Phase.stores φ k → PhaseIn Phase.stores φ l → k = l

/-- FinishEpoch locks the session before it stores the machine. -/
theorem trans_stores (hstep : Trans i rpc ph v₀ t v') (hin : t.any Phase.stores = true) :
    v₀.lock = false := by
  cases hstep with
  | store hlock => exact hlock
  | start hs => cases hs <;> cases hin
  | finish _ _ _ _ _ _ _ hf => cases hf <;> cases hin
  | stored _ hf => cases hf <;> cases hin
  | acceptedTaint _ ht => cases ht <;> cases hin
  | advanceTaint _ ht => cases ht <;> cases hin
  | _ => cases hin

/-- A turn keeps the invariant, if the session is locked as long as the machine
    is stored. -/
theorem turn_store (hturn : Turn w φ e i rpc ph v₀ t φ' v')
    (hlocked : ∀ k, PhaseIn Phase.stores φ k → (View.of w.shared).lock = true)
    (hI : StoreInv φ (View.of w.shared)) : StoreInv φ' v' := by
  refine ⟨turn_work hturn hI.work fun k hki j hφ => ?_, fun k l hk hl => ?_⟩
  · have hk : PhaseIn Phase.stores φ k := phaseIn_of hφ rfl
    refine ⟨hlocked k hk, ?_⟩
    rintro j' rfl
    exact hki (hI.alone k i hk ((hturn.enters.inside rfl).2 rfl))
  · cases ht : t.any Phase.stores with
    | false =>
        exact hI.alone k l (hturn.outside (fun _ => rfl) ht hk).2
          (hturn.outside (fun _ => rfl) ht hl).2
    | true =>
        -- whoever begins to store finds the session unlocked, so nobody stored
        have hfree := trans_stores hturn.trans ht
        rw [hturn.enters.lock] at hfree
        have hself : ∀ k, PhaseIn Phase.stores φ' k → k = i := by
          intro k hk
          by_contra hne
          have hset := hlocked k ((hturn.elsewhere (fun _ => rfl) hne).1 hk)
          rw [hfree] at hset
          cases hset
        exact (hself k hk).trans (hself l hl).symm

/-! ### Giving up an input -/

/-- The two ways to give up an input: a catch clause that taints the session, or
    the one that answers. -/
theorem trans_fails {index number : UInt64} {stage : Stage}
    (hstep : Trans i rpc (.advancing index number stage) v₀ t v')
    (hout : t.any Phase.processing = false) (hcount : v'.count = v₀.count) :
    (¬ StubLost v₀ stage ∧ ∃ f, TreeChange f ∧ Taints i { v₀.mapEpoch index f with
      waiting := settled stage v₀.waiting, processing := false, lock := false } t v') ∨
    (StubLost v₀ stage ∧ t = some .refused) := by
  cases hstep with
  | start hs => cases hs; cases hout
  | advance => cases hout
  | advanceTaint hf ht hmade => exact Or.inl ⟨hmade, _, hf, ht⟩
  | advanceFail _ hstub => exact Or.inr ⟨hstub, rfl⟩
  | advancePark => cases hout
  | advanceExit => exact absurd hcount (by simp)

/-- A tainting catch clause leaves the inputs alone. -/
theorem taints_inputs {v : View} {e : EpochType} (ht : Taints h v t v')
    (he : v.epochs v.active = some e) :
    v'.active = v.active ∧ ∃ e', v'.epochs v.active = some e' ∧
      e'.processedInputs = e.processedInputs ∧ e'.pendingInputs = e.pendingInputs := by
  cases ht with
  | quiet => exact ⟨rfl, e, he, rfl, rfl⟩
  | missing hnone =>
      rw [he] at hnone
      cases hnone
  | handOver =>
      refine ⟨rfl, setCoroutine h e, ?_, rfl, rfl⟩
      show Function.update v.epochs v.active _ v.active = _
      rw [Function.update_self, he]
      rfl

theorem taints_ends {v : View} (ht : Taints h v t v') : t = none ∨ t = some .leaving := by
  cases ht with
  | quiet => exact Or.inl rfl
  | missing => exact Or.inl rfl
  | handOver => exact Or.inr rfl

/-- A query that is found is resumed, and the handler takes its place. -/
theorem taints_resumes {v : View} {c : Option HandlerId} (ht : Taints h v t v')
    (hh : v.holder = some c) : v'.queue = v.queue ++ [c] ∧ v'.holder = some (some h) := by
  cases ht with
  | quiet he hq =>
      rw [holder_of he, hq] at hh
      cases hh
  | missing he =>
      unfold View.holder at hh
      rw [he] at hh
      cases hh
  | handOver he hq =>
      rw [holder_of he, hq] at hh
      cases hh
      refine ⟨rfl, ?_⟩
      show (v.mapEpoch v.active (setCoroutine h)).holder = _
      unfold View.holder View.mapEpoch
      simp only [Function.update_self, he, Option.map_some, Option.bind_some, setCoroutine, hq]

/-- The state after a tainting catch clause, whose handler has nothing left to
    do. -/
structure AfterInv (h : HandlerId) (φ : HandlerId → Option Phase) (v : View) (next : HandlerId)
    (n : Nat) : Prop where
  tainted : v.tainted = true
  ended : φ h = none ∨ φ h = some .leaving
  old : h < next
  once : n = 1

theorem turn_after (hturn : Turn w φ e i rpc ph v₀ t φ' v')
    (ha' : sessionProtocol.Abides w' φ') (hnext : w.next ≤ w'.next) {n : Nat}
    (hI : AfterInv h φ (View.of w.shared) w.next n) :
    AfterInv h φ' v' w'.next (n + answersIn w e w' h) := by
  have htaint : v'.tainted = true :=
    trans_tainted hturn.trans (by rw [hturn.enters.tainted]; exact hI.tainted)
  have hold : h < w'.next := Nat.lt_of_lt_of_le hI.old hnext
  rw [turn_answers hturn ha', hI.once]
  by_cases hi : h = i
  · subst hi
    -- it is not a new handler, so it is the one in the catch clause
    have hleft : ph = .leaving := by
      rcases hturn.enters.before with hφ | ⟨hnone, rfl⟩
      · rcases hI.ended with hended | hended
        · rw [hφ] at hended
          cases hended
        · rw [hφ] at hended
          exact Option.some.inj hended
      · cases hturn.enters.cause with
        | arrived _ hnew => exact absurd hI.old (by rw [hnew]; exact Nat.lt_irrefl _)
        | completed hφ => rw [hnone] at hφ; cases hφ
        | dequeued hφ => rw [hnone] at hφ; cases hφ
        | resumed hφ => rw [hnone] at hφ; cases hφ
    subst hleft
    have hend : t = none := by
      cases hturn.trans with
      | start hs => cases hs
      | left => rfl
    subst hend
    rw [if_neg fun hand => Bool.false_ne_true hand.2]
    exact ⟨htaint, Or.inl hturn.after, hold, rfl⟩
  · rw [if_neg fun hand => hi hand.1]
    refine ⟨htaint, ?_, hold, rfl⟩
    rcases hturn.others h hi with hsame | ⟨hnone, -⟩
    · rw [hsame]
      exact hI.ended
    · exact Or.inl hnone

/-- A query that is let in after the session was tainted is refused, wakes up the
    handler that is named in it, and leaves the session unlocked. -/
theorem trans_refused {j : UInt64} (hstep : Trans i rpc (.queued j) v₀ t v')
    (htaint : v₀.tainted = true) :
    t = some .refused ∧ v'.lock = false ∧ ∃ e q, v₀.epochs j = some e ∧
      e.pendingQuery = some q ∧ ∀ g, q.coroutine = some g → v'.queue = v₀.queue ++ [some g] := by
  cases hstep with
  | start hs => cases hs with
    | queued hclean => rw [htaint] at hclean; cases hclean
  | queuedQuick hclean => rw [htaint] at hclean; cases hclean
  | queuedRefuse _ he hq =>
      refine ⟨rfl, rfl, _, _, he, hq, fun g hg => ?_⟩
      rw [hg]
      rfl

end Turns

/-! ### Runs -/

/-- The session is locked as long as a FinishEpoch is in its store call. -/
def StoreLocked (w : Manager) : Prop := ∀ h < w.next, InStore w h → sessionLocked w = true

instance (w : Manager) : Decidable (StoreLocked w) :=
  inferInstanceAs (Decidable (∀ h < w.next, _ → _))

theorem storeLocked_phases {w : Manager} {φ : HandlerId → Option Phase}
    (ha : sessionProtocol.Abides w φ) (hlocked : StoreLocked w) (k : HandlerId)
    (hk : PhaseIn Phase.stores φ k) : (View.of w.shared).lock = true := by
  have hstore := (inStore_iff ha).2 hk
  rw [← sessionLocked_eq]
  exact hlocked k (inSection_lt ha hstore) hstore

/-- The events of a run, and the condition on its steps. -/
abbrev StoredStep (p : Manager × Nat) (e : Event) (_ : Manager × Nat) : Prop :=
  Legal e ∧ StoreLocked p.1

/-- Handler `h` gives up the input it works on. -/
structure FailsInput (w w' : Manager) (h : HandlerId) : Prop where
  working : OnInput w h
  left : ¬ InProcessing w' h
  unrecorded : processedCount w' = processedCount w

instance (w w' : Manager) (h : HandlerId) : Decidable (FailsInput w w' h) :=
  decidable_of_iff (OnInput w h ∧ ¬ InProcessing w' h ∧ processedCount w' = processedCount w)
    ⟨fun ⟨a, b, c⟩ => ⟨a, b, c⟩, fun ⟨a, b, c⟩ => ⟨a, b, c⟩⟩

/-- Handler `h` waits for a check-in that came, and goes on in an event that is
    no deadline and in which no stub can be made. -/
structure StubUnmade (w : Manager) (e : Event) (h : HandlerId) : Prop where
  waits : AwaitsCheckin w h
  checked : w.shared.waitingCheckin.bind CheckinContext.status = some true
  unmade : e.env.map Environment.newStub = some false
  timely : ∀ i env, e ≠ .alarm i env

/-- The coroutine named in the query of the active epoch. -/
def queryHolder (w : Manager) : Option (Option HandlerId) :=
  ((epochOf w (activeEpoch w)).bind EpochType.pendingQuery).map QueryType.coroutine

omit [Keccak] in
theorem queryHolder_eq (w : Manager) : queryHolder w = (View.of w.shared).holder := by
  unfold queryHolder View.holder
  rw [epochOf_eq, activeEpoch_eq]

/-- InspectState is parked, and the query of the active epoch is its own. -/
def ParkedQuery (w : Manager) (k : HandlerId) : Prop :=
  AwaitsInputs w k ∧ queryHolder w = some (some k)

/-- What is left of a failure: the state `w'` after it, given the state `w₁` in
    which the input was begun, the state `w` before it, and the number of answers
    of handler `h`. -/
structure Contained (h : HandlerId) (w₁ w w' : Manager) (n' : Nat) : Prop where
  tainted : sessionTainted w' = true
  unlocked : processingLocked w' = false ∧ sessionLocked w' = false
  /-- The inputs are those of the start, with what was accepted since then. -/
  inputs : ∃ e₁ e e', epochOf w₁ (activeEpoch w₁) = some e₁ ∧
    epochOf w (activeEpoch w₁) = some e ∧ epochOf w' (activeEpoch w₁) = some e' ∧
    e'.processedInputs = e₁.processedInputs ∧ e₁.pendingInputs <+: e.pendingInputs ∧
    e'.pendingInputs = e.pendingInputs
  /-- From now on the handler is over, or parked until the query is done, and it
      answered once. -/
  ended : ∀ p, Runs (countingStep h) StoredStep (w', n') p → p.1.halted = none →
    p.2 = 1 ∧ (p.1.handlers h = none ∨ AfterTaint p.1 h)
  /-- A query that is parked is resumed, with the handler named in it. -/
  resumed : ∀ k, ParkedQuery w k → w'.shared.completionQueue.getLast? = some (some k) ∧
    queryHolder w' = some (some h)
  /-- When it is let in it is refused, which leaves the session unlocked and wakes
      up whoever is named in the query. -/
  refused : ∀ p, Runs (countingStep h) StoredStep (w', n') p → ∀ e w'', Legal e →
    step p.1 e = some w'' → w''.halted = none → ∀ k, AwaitsInputs p.1 k → ¬ AwaitsInputs w'' k →
      Refused w'' k ∧ sessionLocked w'' = false ∧ ∃ index e q, epochOf p.1 index = some e ∧
        e.pendingQuery = some q ∧ ∀ g, q.coroutine = some g →
          w''.shared.completionQueue.getLast? = some (some g)

/-- What every turn keeps, every counting run keeps. -/
theorem runs_counting {h : HandlerId}
    {I : (HandlerId → Option Phase) → View → HandlerId → Nat → Prop} {p₀ p : Manager × Nat}
    {C : Manager × Nat → Event → Manager × Nat → Prop} (hrun : Runs (countingStep h) C p₀ p)
    (hlegal : ∀ p e p', C p e p' → Legal e)
    (h₀ : ∃ φ, sessionProtocol.Abides p₀.1 φ ∧ I φ (View.of p₀.1.shared) p₀.1.next p₀.2)
    (hgrow : ∀ {φ v next next' n}, I φ v next n → next ≤ next' → I φ v next' n)
    (hkeep : ∀ {w w' : Manager} {n φ φ' e i rpc ph v₀ t}, C (w, n) e (w', n + answersIn w e w' h) →
      sessionProtocol.Abides w φ → sessionProtocol.Abides w' φ' → w.next ≤ w'.next →
      I φ (View.of w.shared) w.next n → Turn w φ e i rpc ph v₀ t φ' (View.of w'.shared) →
      I φ' (View.of w'.shared) w'.next (n + answersIn w e w' h)) :
    p.1.halted = none →
      ∃ φ, sessionProtocol.Abides p.1 φ ∧ I φ (View.of p.1.shared) p.1.next p.2 := by
  refine runs_invariant (I := fun p : Manager × Nat => p.1.halted = none →
    ∃ φ, sessionProtocol.Abides p.1 φ ∧ I φ (View.of p.1.shared) p.1.next p.2) hrun (fun _ => h₀) ?_
  rintro ⟨w, n⟩ e ⟨w', n'⟩ hgood hcount hc hhalt
  rcases countingStep_eq hcount with ⟨hstep, hn⟩
  dsimp only at hstep hn
  subst hn
  have hnext := step_next hstep
  rcases hgood (step_running hstep) with ⟨φ, ha, hI⟩
  rcases step_moves (hlegal _ _ _ hc) ha (step_running hstep) hstep with
    ⟨x, hx, -⟩ | ⟨-, φ', ha', ⟨rfl, hv, hnobody⟩ | ⟨i, rpc, ph, v₀, t, hturn⟩⟩
  · rw [hhalt] at hx
    cases hx
  · refine ⟨φ', ha', ?_⟩
    have hzero : answersIn w e w' h = 0 := by
      unfold answersIn
      rw [if_neg]
      rintro ⟨hran, -⟩
      rw [hnobody h] at hran
      cases hran
    show I φ' (View.of w'.shared) w'.next (n + answersIn w e w' h)
    rw [hv, hzero]
    exact hgrow hI hnext
  · exact ⟨φ', ha', hkeep hc ha ha' hnext hI hturn⟩

theorem counting_running {h : HandlerId} {C : Manager × Nat → Event → Manager × Nat → Prop}
    {p₀ p : Manager × Nat} (hrun : Runs (countingStep h) C p₀ p) (hp : p.1.halted = none) :
    p₀.1.halted = none := by
  induction hrun with
  | refl => exact hp
  | tail e _ hstep _ ih => exact ih (step_running (countingStep_eq hstep).1)

/-- The first part of a run. -/
theorem counted_before {hctx : HandlerContext} {session : SessionType}
    (hfresh : FreshSession hctx session) {h : HandlerId} {p : Manager × Nat}
    (hrun : Runs (countingStep h) StoredStep (idle hctx, 0) p) (hp : p.1.halted = none) :
    ∃ φ, sessionProtocol.Abides p.1 φ ∧ StoreInv φ (View.of p.1.shared) ∧
      CountInv h p.1.next φ p.2 := by
  rcases freshView_of hfresh with ⟨e₀, hv⟩
  refine runs_counting (I := fun φ v next n => StoreInv φ v ∧ CountInv h next φ n) hrun
    (fun _ _ _ hc => hc.1) ?_ ?_ ?_ hp
  · refine ⟨fun _ => none, ⟨⟨session, hfresh.entry⟩, fun _ => trivial, fun _ _ => rfl⟩,
      ⟨workInv_fresh hv, fun k l hk => ?_⟩, fun _ => rfl, fun hin => ?_⟩
    · cases hk
    · cases hin
  · intro φ v next next' n hI hle
    exact ⟨hI.1, fun hge => hI.2.unborn (Nat.le_trans hle hge), hI.2.served⟩
  · intro w w' n φ φ' e i rpc ph v₀ t hc ha ha' hnext hI hturn
    exact ⟨turn_store hturn (storeLocked_phases ha hc.2) hI.1, turn_count hturn ha ha' hnext hI.2⟩

/-- The part of a run in which handler `h` works on an input. -/
abbrev WorkingStep (h : HandlerId) (p : Manager × Nat) (e : Event) (p' : Manager × Nat) : Prop :=
  StoredStep p e p' ∧ OnInput p'.1 h ∧ processedCount p'.1 = processedCount p.1

/-- The second part of a run. -/
theorem counted_during {h : HandlerId} {index : UInt64} {e₁ : EpochType} {p₁ p : Manager × Nat}
    (hrun : Runs (countingStep h) (WorkingStep h) p₁ p) (hp : p.1.halted = none)
    (h₁ : ∃ φ, sessionProtocol.Abides p₁.1 φ ∧ StoreInv φ (View.of p₁.1.shared) ∧
      CountInv h p₁.1.next φ p₁.2 ∧ UntouchedInv h index e₁ φ (View.of p₁.1.shared)) :
    ∃ φ, sessionProtocol.Abides p.1 φ ∧ StoreInv φ (View.of p.1.shared) ∧
      CountInv h p.1.next φ p.2 ∧ UntouchedInv h index e₁ φ (View.of p.1.shared) := by
  refine runs_counting
    (I := fun φ v next n => StoreInv φ v ∧ CountInv h next φ n ∧ UntouchedInv h index e₁ φ v) hrun
    (fun _ _ _ hc => hc.1.1) h₁ ?_ ?_ hp
  · intro φ v next next' n hI hle
    exact ⟨hI.1, ⟨fun hge => hI.2.1.unborn (Nat.le_trans hle hge), hI.2.1.served⟩, hI.2.2⟩
  · intro w w' n φ φ' e i rpc ph v₀ t hc ha ha' hnext hI hturn
    refine ⟨turn_store hturn (storeLocked_phases ha hc.1.2) hI.1,
      turn_count hturn ha ha' hnext hI.2.1, turn_untouched hturn hI.1.work ?_ ?_ hI.2.2⟩
    · exact (onInput_iff ha').1 hc.2.1
    · rw [← processedCount_eq, ← processedCount_eq]
      exact hc.2.2

/-- What a handler finds of the check-in it waited for is what is there before
    the event, unless the deadline came. -/
theorem stubLost_iff {w w' : Manager} {φ : HandlerId → Option Phase} {e : Event} {h : HandlerId}
    {rpc : Rpc} {v₀ : View} {index number : UInt64} {stage : Stage}
    (ha : sessionProtocol.Abides w φ) (hstep : step w e = some w')
    (henters : Enters w φ e h rpc (.advancing index number stage) v₀) :
    StubLost v₀ stage ↔ StubUnmade w e h := by
  have hφ : φ h = some (.advancing index number stage) := henters.parked Phase.noConfusion
  have hwaits : AwaitsCheckin w h ↔ stage = .waiting := by
    rw [awaitsCheckin_iff ha, henters.inside rfl]
    cases stage <;> simp [Phase.awaitsCheckin]
  have hstub : v₀.newStub = false ↔ e.env.map Environment.newStub = some false := by
    rcases henters.stub with ⟨env, henv, hnew⟩
    rw [henv, hnew, Option.map_some, Option.some_inj]
  -- in an event that is no deadline, the entry is the one that is there
  have hsame : v₀.waiting = (View.of w.shared).waiting → (∀ a env, e ≠ .alarm a env) →
      (StubLost v₀ stage ↔ StubUnmade w e h) := by
    intro hw he
    rw [view_waiting] at hw
    refine ⟨fun hlost => ⟨hwaits.2 hlost.waits, ?_, hstub.1 hlost.stub, he⟩,
      fun hun => ⟨hwaits.1 hun.waits, hstub.2 hun.unmade, ?_⟩⟩
    · rcases hlost.checked with ⟨cctx, hcctx, hstatus⟩
      rw [← hw, hcctx]
      exact hstatus
    · rw [hw]
      exact Option.bind_eq_some_iff.1 hun.checked
  cases henters.cause with
  | completed _ _ _ hw he => exact hsame hw he
  | dequeued _ _ _ hw he => exact hsame hw he
  | resumed _ _ _ _ _ _ hstatus =>
      rcases hstatus with ⟨hw, he⟩ | ⟨⟨cctx, hcctx, hfalse⟩, hexp⟩
      · exact hsame hw he
      · refine ⟨fun hlost => ?_, fun hun => ?_⟩
        · rcases hlost.checked with ⟨cctx', hcctx', htrue⟩
          rw [hcctx] at hcctx'
          cases hcctx'
          rw [hfalse] at htrue
          cases htrue
        · rcases hexp with ⟨a, peer, fuel, env, rfl⟩ | ⟨a, env, rfl⟩
          · -- a deadline does not come as a request
            have hw := step_running hstep
            unfold step at hstep
            rw [if_neg (by rw [hw]; exact Bool.false_ne_true)] at hstep
            cases hstep
          · exact absurd rfl (hun.timely a env)

/-- From a tainting catch clause on, the handler does nothing more. -/
theorem runs_after {h : HandlerId} {p₀ p : Manager × Nat}
    (hrun : Runs (countingStep h) StoredStep p₀ p) (hp : p.1.halted = none)
    (h₀ : ∃ φ, sessionProtocol.Abides p₀.1 φ ∧
      AfterInv h φ (View.of p₀.1.shared) p₀.1.next p₀.2) :
    ∃ φ, sessionProtocol.Abides p.1 φ ∧ AfterInv h φ (View.of p.1.shared) p.1.next p.2 := by
  refine runs_counting (I := AfterInv h) hrun (fun _ _ _ hc => hc.1) h₀ ?_ ?_ hp
  · intro φ v next next' n hI hle
    exact ⟨hI.tainted, hI.ended, Nat.lt_of_lt_of_le hI.old hle, hI.once⟩
  · intro w w' n φ φ' e i rpc ph v₀ t _ _ ha' hnext hI hturn
    exact turn_after hturn ha' hnext hI

/-- The query that is let in after the failure. -/
theorem refused_after {h k : HandlerId} {n : Nat} {w w' : Manager} {φ : HandlerId → Option Phase}
    {e : Event} (ha : sessionProtocol.Abides w φ) (hI : AfterInv h φ (View.of w.shared) w.next n)
    (hlegal : Legal e) (hstep : step w e = some w') (hw' : w'.halted = none)
    (hwaits : AwaitsInputs w k) (hleft : ¬ AwaitsInputs w' k) :
    Refused w' k ∧ sessionLocked w' = false ∧ ∃ index e q, epochOf w index = some e ∧
      e.pendingQuery = some q ∧ ∀ g, q.coroutine = some g →
        w'.shared.completionQueue.getLast? = some (some g) := by
  rw [awaitsInputs_iff ha] at hwaits
  rcases step_moves hlegal ha (step_running hstep) hstep with
    ⟨x, hx, -⟩ | ⟨-, φ', ha', ⟨rfl, -⟩ | ⟨i, rpc, ph, v₀, t, hturn⟩⟩
  · rw [hw'] at hx
    cases hx
  · exact absurd ((awaitsInputs_iff ha').2 hwaits) hleft
  · rw [awaitsInputs_iff ha'] at hleft
    have hki : k = i := by
      by_contra hne
      exact hleft ((hturn.elsewhere (fun _ => rfl) hne).2 hwaits)
    subst hki
    have hph : ph.queues = true := (hturn.enters.inside rfl).1 hwaits
    cases ph with
    | queued j =>
        rcases trans_refused hturn.trans (by rw [hturn.enters.tainted]; exact hI.tainted) with
          ⟨ht, hlock, e, q, he, hq, hwake⟩
        refine ⟨(refused_iff ha').2 (hturn.inside.2 (by rw [ht]; rfl)), ?_, j, e, q, ?_, hq,
          fun g hg => ?_⟩
        · rw [sessionLocked_eq]
          exact hlock
        · rw [epochOf_eq, ← hturn.enters.epochs]
          exact he
        · rw [← view_queue, hwake g hg, List.getLast?_append]
          rfl
    | _ => cases hph

section Failure

variable {h : HandlerId} {w₁ w w' : Manager} {n : Nat} {e : Event}
  {φ φ' : HandlerId → Option Phase} {rpc : Rpc} {v₀ : View} {t : Option Phase}
  {number : UInt64} {stage : Stage} {e₁ : EpochType}

/-- A tainting catch clause contains the failure. -/
theorem contained_of_taint (ha : sessionProtocol.Abides w φ)
    (ha' : sessionProtocol.Abides w' φ')
    (hturn : Turn w φ e h rpc (.advancing (activeEpoch w₁) number stage) v₀ t φ'
      (View.of w'.shared)) {f : EpochType → EpochType} (hf : TreeChange f)
    (ht : Taints h { v₀.mapEpoch (activeEpoch w₁) f with
      waiting := settled stage v₀.waiting, processing := false, lock := false } t
      (View.of w'.shared))
    (hnext : w.next ≤ w'.next) (hstart : epochOf w₁ (activeEpoch w₁) = some e₁)
    (hI : StoreInv φ (View.of w.shared)) (hU : UntouchedInv h (activeEpoch w₁) (clearQuery e₁) φ
      (View.of w.shared)) (hn : n = 1) :
    Contained h w₁ w w' (n + answersIn w e w' h) := by
  have hφ : φ h = some (.advancing (activeEpoch w₁) number stage) :=
    hturn.enters.parked Phase.noConfusion
  have hactive : activeEpoch w₁ = v₀.active := by
    rw [hturn.enters.active]
    exact (hI.work.busy hφ).1
  have hends : t = none ∨ t = some .leaving := taints_ends ht
  -- what the catch clause leaves behind, also for the rest of the run
  have hafter : AfterInv h φ' (View.of w'.shared) w'.next (n + answersIn w e w' h) := by
    refine ⟨(taints_tainted ht).1, ?_, Nat.lt_of_lt_of_le (inSection_lt ha
      ((onInput_iff ha).2 (phaseIn_of hφ rfl))) hnext, ?_⟩
    · rw [hturn.after]
      exact hends
    · rw [turn_answers hturn ha', hn, if_neg]
      rintro ⟨-, hans⟩
      rcases hends with rfl | rfl
      · cases hans
      · cases hans
  have hlater : ∀ p, Runs (countingStep h) StoredStep (w', n + answersIn w e w' h) p →
      p.1.halted = none →
      ∃ φ, sessionProtocol.Abides p.1 φ ∧ AfterInv h φ (View.of p.1.shared) p.1.next p.2 :=
    fun p hrun hp => runs_after hrun hp ⟨φ', ha', hafter⟩
  refine ⟨?_, ⟨?_, ?_⟩, ?_, fun p hrun hp => ?_, fun k hk => ?_,
    fun p hrun e' w'' hlegal hstep hw'' k hwaits hleft => ?_⟩
  · rw [sessionTainted_eq]
    exact hafter.tainted
  · rw [processingLocked_eq]
    exact taints_processing ht
  · rw [sessionLocked_eq]
    exact (taints_lock ht).1
  · rcases hU.2 with ⟨e, he, hproc, hprefix⟩
    rcases Option.map_eq_some_iff.1 he with ⟨e₂, he₂, rfl⟩
    have hmap : (v₀.mapEpoch (activeEpoch w₁) f).epochs v₀.active = some (f e₂) := by
      show Function.update v₀.epochs (activeEpoch w₁) _ v₀.active = _
      rw [← hactive, Function.update_self, hturn.enters.epochs, he₂]
      rfl
    rcases taints_inputs ht hmap with ⟨-, e', he', hproc', hpend'⟩
    refine ⟨e₁, e₂, e', hstart, by rw [epochOf_eq]; exact he₂, ?_, ?_, hprefix, ?_⟩
    · rw [epochOf_eq, hactive]
      exact he'
    · rw [hproc', (treeChange_state hf e₂).2.2]
      exact hproc
    · rw [hpend', (treeChange_state hf e₂).2.1]
  · rcases hlater p hrun hp with ⟨φ₂, ha₂, hI₂⟩
    refine ⟨hI₂.once, ?_⟩
    rcases hI₂.ended with hnone | hleft
    · exact Or.inl (Protocol.follows_none (hnone ▸ ha₂.follows h))
    · exact Or.inr ((afterTaint_iff ha₂).2 (phaseIn_of hleft rfl))
  · have hh : v₀.holder = some (some k) := by
      rw [hturn.enters.holder, ← queryHolder_eq]
      exact hk.2
    rw [← holder_tree v₀ (activeEpoch w₁) hf] at hh
    rcases taints_resumes ht hh with ⟨hq, hh'⟩
    rw [queryHolder_eq]
    refine ⟨?_, hh'⟩
    rw [← view_queue, hq, List.getLast?_append]
    rfl
  · rcases hlater p hrun (step_running hstep) with ⟨φ₂, ha₂, hI₂⟩
    exact refused_after ha₂ hI₂ hlegal hstep hw'' hwaits hleft

end Failure

/-- In every run in which the session stays locked as long as a FinishEpoch is
    in its store call, a failure of a handler that works on an input is contained
    if and only if it is not that no stub can be made after a check-in. -/
theorem failure_contained {hctx : HandlerContext} {session : SessionType}
    (hfresh : FreshSession hctx session) {h : HandlerId} {w₁ w w' : Manager} {n₁ n n' : Nat}
    {e : Event} (hbefore : Runs (countingStep h) StoredStep (idle hctx, 0) (w₁, n₁))
    (hbegun : OnInput w₁ h) (hduring : Runs (countingStep h) (WorkingStep h) (w₁, n₁) (w, n))
    (hlast : countingStep h (w, n) e = some (w', n')) (hlegal : Legal e)
    (hfail : FailsInput w w' h) (hw' : w'.halted = none) :
    Contained h w₁ w w' n' ↔ ¬ StubUnmade w e h := by
  rcases countingStep_eq hlast with ⟨hstep, hn'⟩
  dsimp only at hstep hn'
  subst hn'
  have hw : w.halted = none := step_running hstep
  rcases counted_before hfresh hbefore (counting_running hduring hw) with ⟨φ₁, ha₁, hS₁, hC₁⟩
  -- the input is one of the active epoch
  rcases phaseIn_advances ((onInput_iff ha₁).1 hbegun) with ⟨index, number₁, stage₁, hφ₁⟩
  rcases hS₁.work.busy hφ₁ with ⟨hactive, e₁', he₁', -⟩
  rcases Option.map_eq_some_iff.1 he₁' with ⟨e₁, he₁, rfl⟩
  rw [← activeEpoch_eq] at hactive
  subst hactive
  have hstart : epochOf w₁ (activeEpoch w₁) = some e₁ := (epochOf_eq _ _).trans he₁
  rcases counted_during hduring hw ⟨φ₁, ha₁, hS₁, hC₁, ⟨number₁, stage₁, hφ₁⟩, clearQuery e₁,
    he₁', rfl, List.prefix_rfl⟩ with ⟨φ, ha, hS, hC, hU⟩
  rcases hU.1 with ⟨number, stage, hφ⟩
  have hn : n = 1 := hC.served (phaseIn_of hφ rfl)
  have hin : PhaseIn Phase.processing φ h := phaseIn_of hφ rfl
  rcases step_moves hlegal ha hw hstep with
    ⟨x, hx, -⟩ | ⟨-, φ', ha', ⟨rfl, -⟩ | ⟨i, rpc, ph, v₀, t, hturn⟩⟩
  · rw [hw'] at hx
    cases hx
  · exact absurd ((inProcessing_iff ha').2 hin) hfail.left
  · have hout : ¬ PhaseIn Phase.processing φ' h := fun h => hfail.left ((inProcessing_iff ha').2 h)
    have hi : h = i := by
      by_contra hne
      exact hout ((hturn.elsewhere (fun _ => rfl) hne).2 hin)
    subst hi
    obtain rfl : ph = .advancing (activeEpoch w₁) number stage := by
      rcases hturn.enters.before with hφ' | ⟨hnone, -⟩
      · rw [hφ] at hφ'
        exact (Option.some.inj hφ').symm
      · rw [hφ] at hnone
        cases hnone
    rw [← stubLost_iff ha hstep hturn.enters]
    have hcount : (View.of w'.shared).count = v₀.count := by
      rw [hturn.enters.count, ← processedCount_eq, ← processedCount_eq]
      exact hfail.unrecorded
    rcases trans_fails hturn.trans (by simpa [hturn.inside] using hout) hcount with
      ⟨hmade, f, hf, ht⟩ | ⟨hlost, ht⟩
    · exact iff_of_true
        (contained_of_taint ha ha' hturn hf ht (step_next hstep) hstart hS hU hn) hmade
    · -- the answer is the second one
      refine iff_of_false (fun hcontained => ?_) (not_not.2 hlost)
      have honce := (hcontained.ended _ (.refl _) hw').1
      dsimp only at honce
      rw [turn_answers hturn ha', ht, hn, if_pos ⟨rfl, rfl⟩] at honce
      cases honce

end ServerManager

/-! ### On the sample session -/

namespace ServerManager

open Coroutine

attribute [local instance] keccak256

/-- No stub can be made for the address of the check-in that was acknowledged. -/
def unmadeEvent : Event := .complete 2 goodReply { calm with newStub := false }

/-- With a query parked behind it, AdvanceState is told that no stub can be made.
    It answers its request a second time, the session is not tainted, and nobody
    is put in the completion queue. -/
theorem answered_twice : ∃ w₁ n₁ w n w',
    Runs (countingStep 0) StoredStep (idle sampleContext, 0) (w₁, n₁) ∧ OnInput w₁ 0 ∧
      Runs (countingStep 0) (WorkingStep 0) (w₁, n₁) (w, n) ∧
      countingStep 0 (w, n) unmadeEvent = some (w', 2) ∧ FailsInput w w' 0 ∧ w'.halted = none ∧
      sessionTainted w' = false ∧ ParkedQuery w 1 ∧ w'.shared.completionQueue = [] ∧
      ¬ Contained 0 w₁ w w' 2 := by
  obtain ⟨⟨w₁, n₁⟩, hbefore, hw₁⟩ : ∃ p, Runs (countingStep 0) StoredStep (idle sampleContext, 0) p ∧
      (decide (OnInput p.1 0) && (play (countingStep 0) (fun p e p' => decide (WorkingStep 0 p e p')) p
        [.request (.inspectState []), .answered 0, .checkIn]).any fun p =>
          decide (AwaitsInputs p.1 1) && decide (queryHolder p.1 = some (some 1)) &&
          (countingStep 0 p unmadeEvent).any fun p' => p'.2 == 2 && decide (FailsInput p.1 p'.1 0) &&
            p'.1.halted.isNone && !sessionTainted p'.1 && p'.1.shared.completionQueue.isEmpty) = true :=
    exists_run (fun p e p' => decide (StoredStep p e p'))
      [.request (.advanceState (sampleRequest 0)), .answered 0] (fun _ _ _ h => of_decide_eq_true h)
      (by decide +kernel)
  rw [Bool.and_eq_true, decide_eq_true_eq] at hw₁
  obtain ⟨⟨w, n⟩, hduring, hw⟩ := exists_run (C := WorkingStep 0) _ _
    (fun _ _ _ h => of_decide_eq_true h) hw₁.2
  simp only [Bool.and_eq_true, decide_eq_true_eq, Option.any_eq_true, beq_iff_eq,
    Option.isNone_iff_eq_none, Bool.not_eq_true', List.isEmpty_iff] at hw
  rcases hw with ⟨⟨hparked, hholder⟩, ⟨w', n'⟩, hlast, ⟨⟨⟨rfl, hfail⟩, hhalt⟩, hclean⟩, hqueue⟩
  refine ⟨w₁, n₁, w, n, w', hbefore, hw₁.1, hduring, hlast, hfail, hhalt, hclean, ⟨hparked, hholder⟩,
    hqueue, fun hcontained => ?_⟩
  have htaint := hcontained.tainted
  rw [hclean] at htaint
  cases htaint

/-- The snapshot fails with a query parked behind the input. -/
theorem failure_contained_sample : ∃ w₁ n₁ w n w' n',
    Runs (countingStep 0) StoredStep (idle sampleContext, 0) (w₁, n₁) ∧ OnInput w₁ 0 ∧
      Runs (countingStep 0) (WorkingStep 0) (w₁, n₁) (w, n) ∧ ParkedQuery w 1 ∧
      countingStep 0 (w, n) (.failed 0) = some (w', n') ∧ FailsInput w w' 0 ∧
      Contained 0 w₁ w w' n' := by
  obtain ⟨⟨w₁, n₁⟩, hbefore, hw₁⟩ : ∃ p, Runs (countingStep 0) StoredStep (idle sampleContext, 0) p ∧
      (decide (OnInput p.1 0) && (play (countingStep 0) (fun p e p' => decide (WorkingStep 0 p e p')) p
        [.request (.inspectState [])]).any fun p =>
          decide (AwaitsInputs p.1 1) && decide (queryHolder p.1 = some (some 1)) &&
          decide (¬ AwaitsCheckin p.1 0) && (countingStep 0 p (.failed 0)).any fun p' =>
            decide (FailsInput p.1 p'.1 0) && p'.1.halted.isNone) = true :=
    exists_run (fun p e p' => decide (StoredStep p e p'))
      [.request (.advanceState (sampleRequest 0)), .answered 0] (fun _ _ _ h => of_decide_eq_true h)
      (by decide +kernel)
  rw [Bool.and_eq_true, decide_eq_true_eq] at hw₁
  obtain ⟨⟨w, n⟩, hduring, hw⟩ := exists_run (C := WorkingStep 0) _ _
    (fun _ _ _ h => of_decide_eq_true h) hw₁.2
  simp only [Bool.and_eq_true, decide_eq_true_eq, Option.any_eq_true,
    Option.isNone_iff_eq_none] at hw
  rcases hw with ⟨⟨⟨hparked, hholder⟩, hcalling⟩, ⟨w', n'⟩, hlast, hfail, hhalt⟩
  refine ⟨w₁, n₁, w, n, w', n', hbefore, hw₁.1, hduring, ⟨hparked, hholder⟩, hlast, hfail, ?_⟩
  refine (failure_contained freshSession_sample hbefore hw₁.1 hduring hlast rfl hfail hhalt).2 ?_
  exact fun hstub => hcalling hstub.waits

end ServerManager
