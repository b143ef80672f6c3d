import ServerManager.Coroutine.Trace
import ServerManager.Theory.Custody
import ServerManager.Theory.Waits

/-!
# The End of a Wait

A handler that waits for a check-in is resumed by the CheckIn that was accepted, or by
the deadline. Both can come: the entry stays while the CheckIn waits for its own answer
to be acknowledged, and an alarm that has fired is not taken back. Then the handler is
resumed once more, wherever it is by then.

If a CheckIn is only accepted by an entry that no other CheckIn was accepted by, and
whose alarm has not fired, every wait ends once, and by its own event.

## Main definitions

* `Alarmed`: An alarm that can still expire.
* `Tended`: Who can end the wait.
* `acceptsCheckin`, `Event.disturbs`, `Attending`: A step that leaves the wait alone.
* `statusFound`: The status that the resumed handler reads.
* `EndedBy`: The event that ends a wait.

## Theorems

* `step_tag`: A handler keeps its RPC.
* `seg_wakes`, `direct_wakes`: Who resumes on the spot.
* `tended_passage`, `runs_tended`: The invariant along a run.
* `waits_end_once`: A wait ends once, and by its own event.
* `wait_ended_twice`: Two CheckIns are accepted for one wait.
-/

namespace ServerManager

open Coroutine

/-! ### Alarms -/

/-- The event of the alarm is still to come, and it will be that of an expired one. -/
def Alarmed (L : Ledger) (a : Nat) : Prop :=
  L.alarms[a]? = some .running ∨ L.alarms[a]? = some .fired

theorem cancelAlarm_getElem? (alarms : List AlarmState) (a i : Nat) :
    (cancelAlarm alarms i)[a]? =
      alarms[a]?.map fun x => if i = a ∧ x = .running then .cancelled else x := by
  unfold cancelAlarm
  rw [List.getElem?_modify]
  cases alarms[a]? with
  | none => rfl
  | some x =>
      by_cases hai : i = a
      · simp [hai]
      · simp [hai]

/-- Cancelling an alarm makes no other one go off, and itself only if it has fired. -/
theorem alarmed_cancel {alarms : List AlarmState} {a i : Nat}
    (h : (cancelAlarm alarms i)[a]? = some .running ∨ (cancelAlarm alarms i)[a]? = some .fired) :
    (alarms[a]? = some .running ∨ alarms[a]? = some .fired) ∧
      (a = i → alarms[a]? = some .fired) := by
  rw [cancelAlarm_getElem?] at h
  cases ha : alarms[a]? with
  | none =>
      rw [ha] at h
      rcases h with h | h
      · cases h
      · cases h
  | some x =>
      rw [ha, Option.map_some] at h
      by_cases hcancel : i = a ∧ x = .running
      · rw [if_pos hcancel] at h
        rcases h with h | h
        · cases h
        · cases h
      · rw [if_neg hcancel] at h
        refine ⟨h, fun hai => ?_⟩
        rcases h with h | h
        · exact absurd ⟨hai.symm, Option.some.inj h⟩ hcancel
        · exact h

theorem alarmed_set {alarms : List AlarmState} {a i : Nat}
    (h : (alarms.set i .delivered)[a]? = some .running ∨ (alarms.set i .delivered)[a]? = some .fired) :
    (alarms[a]? = some .running ∨ alarms[a]? = some .fired) ∧ a ≠ i := by
  by_cases hai : i = a
  · subst hai
    rw [List.getElem?_set] at h
    simp only [if_true] at h
    split at h
    · rcases h with h | h <;> cases h
    · rcases h with h | h <;> cases h
  · rw [List.getElem?_set_ne hai] at h
    exact ⟨h, fun h => hai h.symm⟩

/-- Settling leaves no alarm but those of other entries. -/
theorem alarmed_settle {L L' : Ledger} {spot : Spot} {a : Nat}
    (halarms : L'.alarms = (L.settle spot).alarms) (h : Alarmed L' a) : Alarmed L a := by
  unfold Alarmed at h
  rw [halarms] at h
  cases spot with
  | waiting =>
      cases hw : L.waiting with
      | none =>
          simp only [Ledger.settle, Ledger.erase, hw] at h
          exact h
      | some cctx =>
          simp only [Ledger.settle, Ledger.erase, hw] at h
          exact (alarmed_cancel h).1
  | plain => exact h
  | trigger => exact h

/-! ### Who can end the wait -/

/-- An alarm that can go off is that of an entry without a status, and a CheckIn that
    waits for its acknowledgement is the one that set the status. -/
structure Tended (φ : HandlerId → Option Hold) (L : Ledger) : Prop where
  registered : Registered φ L
  alarm : ∀ a, Alarmed L a → ∃ cctx, L.waiting = some cctx ∧ cctx.alarm = a ∧ cctx.status = none
  answered : ∀ k g, φ k = some (.checkedIn g) →
    ∃ cctx, L.waiting = some cctx ∧ cctx.coroutine = g ∧ cctx.status = some true
  once : ∀ k k' g g', φ k = some (.checkedIn g) → φ k' = some (.checkedIn g') → k = k'

/-! ### Tags -/

section Tags

variable [Keccak] {w w' w₁ : Manager} {φ φ' : HandlerId → Option Hold} {e : Event} {h i : HandlerId}
  {rpc : Rpc} {ph : Hold} {L : Ledger} {t : Option Hold} {c : Handler Unit}

/-- A handler keeps its RPC, and only the one that is picked can be new. -/
theorem step_tag (hpick : Picks w e h rpc w₁ c) (hadv : w₁.advance h rpc c = some w') {k : HandlerId}
    {p : Suspended handlerSignature Rpc} (hp : w'.handlers k = some p) :
    (k = h ∧ p.tag = rpc) ∨ ∃ q, w.handlers k = some q ∧ q.tag = p.tag := by
  rcases World.advance_tag hadv hp with hnew | ⟨q, hq, htag⟩
  · exact Or.inl hnew
  · by_cases hk : k = h
    · subst hk
      cases hpick with
      | arrived | expired => exact Or.inr ⟨q, hq, htag⟩
      | completed => cases (if_pos rfl).symm.trans hq
      | dequeued => cases (if_pos rfl).symm.trans hq
    · rw [hpick.handlers hk] at hq
      exact Or.inr ⟨q, hq, htag⟩

omit [Keccak] in
theorem Onset.runner (hon : Onset w φ e h rpc ph L) : e.runner w = some h := by
  cases hon with
  | arrived he _ hnew => rw [he, hnew]; rfl
  | expired he _ hnew => rw [he, hnew]; rfl
  | completed he => rw [he]; rfl
  | dequeued he hj => rw [he, Event.runner, hj]; rfl

omit [Keccak] in
/-- Somebody runs in an event that is for a handler. -/
theorem Onset.awake (hon : Onset w φ e h rpc ph L) : ¬ Idles w e w' := by
  intro hidle
  have hrunner := hon.runner
  cases hidle with
  | fire | stale => cases hrunner
  | null hj =>
      rw [Event.runner, hj] at hrunner
      cases hrunner
  | gone hj hh =>
      cases hon with
      | arrived he | expired he | completed he => cases he
      | dequeued he hj' hp =>
          cases he
          rw [hj] at hj'
          cases hj'
          rw [hh] at hp
          cases hp

/-- A request that comes, an alarm or a response is for a handler of the RPC that its
    segment is a step of. -/
theorem Onset.tag (hon : Onset w φ e i rpc ph L) (hnew : w.handlers w.next = none)
    (hstep : step w e = some w') {p : Suspended handlerSignature Rpc} (hp : w'.handlers i = some p) :
    p.tag = rpc := by
  rcases step_picks hstep with ⟨h, rpc', w₁, c, hpick, hadv⟩ | hidle
  · have hi : h = i ∧ rpc' = rpc ∧ ∀ q, w.handlers i = some q → q.tag = rpc := by
      cases hon with
      | arrived he _ hn =>
          subst he hn
          cases hpick with
          | arrived => exact ⟨rfl, rfl, fun q hq => by rw [hnew] at hq; cases hq⟩
      | expired he _ hn =>
          subst he hn
          cases hpick with
          | expired => exact ⟨rfl, rfl, fun q hq => by rw [hnew] at hq; cases hq⟩
      | completed he hp =>
          subst he
          cases hpick with
          | completed hp' =>
              rw [hp] at hp'
              cases hp'
              exact ⟨rfl, rfl, fun q hq => by rw [hp] at hq; cases hq; rfl⟩
      | dequeued he hj hp =>
          subst he
          cases hpick with
          | dequeued hj' hp' =>
              rw [hj] at hj'
              cases hj'
              rw [hp] at hp'
              cases hp'
              exact ⟨rfl, rfl, fun q hq => by rw [hp] at hq; cases hq; rfl⟩
    rcases hi with ⟨rfl, rfl, hold⟩
    rcases step_tag hpick hadv hp with ⟨-, htag⟩ | ⟨q, hq, htag⟩
    · exact htag
    · exact htag.symm.trans (hold q hq)
  · exact absurd hidle hon.awake

theorem passage_tag (ha : ledgerProtocol.Abides w φ) (hstep : step w e = some w')
    (hpass : Passage w φ e i rpc ph L t φ' (Ledger.of w'.shared)) {p : Suspended handlerSignature Rpc}
    (hp : w'.handlers i = some p) : p.tag = rpc := by
  have hnew : w.handlers w.next = none := ha.unused _ (Nat.le_refl _)
  have hresumed : ∀ {h rpc' ph' L'} {q : Suspended handlerSignature Rpc},
      Onset w φ e h rpc' ph' L' → i ≠ h → w.handlers i = some q → p.tag = q.tag := by
    intro h rpc' ph' L' q hon hne hq
    rcases step_picks hstep with ⟨h', rpc'', w₁, c, hpick, hadv⟩ | hidle
    · have hh : h' = h := Option.some.inj (hpick.runner.symm.trans hon.runner)
      rcases step_tag hpick hadv hp with ⟨rfl, -⟩ | ⟨q', hq', htag⟩
      · exact absurd hh hne
      · rw [hq] at hq'
        cases hq'
        exact htag.symm
    · exact absurd hidle hon.awake
  cases hpass.entry with
  | onset hon => exact hon.tag hnew hstep hp
  | checkedIn hon _ hne hq => exact hresumed hon hne hq
  | expired hon _ _ _ _ hne hq => exact hresumed hon hne hq

end Tags

/-! ### Steps that leave a wait alone -/

/-- The exits of `trigger_and_wait_checkin` and `new_CheckinDeadline_handler`. -/
def Halt.exits : Halt → Bool
  | .alreadyWaitingCheckin | .checkinContextErased | .checkinStatusNotSet | .deadlineNotRegistered
  | .deadlineNotFound => true
  | _ => false

/-- The entry by which a CheckIn that comes is accepted. -/
def acceptsCheckin (w : Manager) : Event → Option CheckinContext
  | .arrive (.checkIn _) _ _ env =>
    if env.ok && w.shared.session.isSome then w.shared.waitingCheckin else none
  | _ => none

/-- The event is for another handler that triggers check-ins, or takes handler `h` out
    of its wait in another way. -/
def Event.disturbs (w : Manager) (h : HandlerId) : Event → Bool
  | .arrive rpc _ _ _ => Triggers rpc
  | .complete k _ _ => k != h && (w.handlers k).any fun p => Triggers p.tag
  | .dequeue .. => true
  | _ => false

/-- While a handler is in `trigger_and_wait_checkin`, only that handler runs of those that
    trigger check-ins. No session is used after it was erased. -/
structure Apart [Keccak] (w : Manager) (e : Event) (w' : Manager) : Prop where
  alone : ∀ h < w.next, awaiting w h = true → e.disturbs w h = false
  custody : CustodialStep w e w'

/-- Such a step, in which a CheckIn is only accepted by an entry without a status whose
    alarm still runs. -/
structure Attending [Keccak] (w : Manager) (e : Event) (w' : Manager) : Prop extends Apart w e w' where
  answers : ∀ cctx, acceptsCheckin w e = some cctx →
    cctx.status = none ∧ w.shared.alarms[cctx.alarm]? = some .running

instance [Keccak] (w : Manager) (e : Event) (w' : Manager) : Decidable (Apart w e w') :=
  decidable_of_iff
    ((∀ h < w.next, awaiting w h = true → e.disturbs w h = false) ∧ CustodialStep w e w')
    ⟨fun ⟨halone, hcustody⟩ => ⟨halone, hcustody⟩, fun hc => ⟨hc.alone, hc.custody⟩⟩

instance [Keccak] (w : Manager) (e : Event) (w' : Manager) : Decidable (Attending w e w') :=
  decidable_of_iff
    (Apart w e w' ∧ ∀ cctx ∈ acceptsCheckin w e,
      cctx.status = none ∧ w.shared.alarms[cctx.alarm]? = some .running)
    ⟨fun ⟨hapart, hanswers⟩ => ⟨hapart, hanswers⟩, fun hc => ⟨hc.toApart, hc.answers⟩⟩

/-! ### The invariant -/

section Invariant

variable [Keccak] {w w' : Manager} {φ φ' : HandlerId → Option Hold} {e : Event} {h i : HandlerId}
  {rpc : Rpc} {ph : Hold} {L : Ledger} {t : Option Hold}

/-- A handler in between is in the world, and nothing disturbs it. -/
theorem Attending.undisturbed (hc : Attending w e w') (ha : ledgerProtocol.Abides w φ)
    (hspot : spotAt φ h ≠ .plain) : e.disturbs w h = false := by
  refine hc.alone h ?_ ((awaiting_iff ha h).2 hspot)
  by_contra hge
  exact hspot (spotAt_none (ha.absent (ha.unused h (Nat.le_of_not_lt hge))))

omit [Keccak] in
/-- Besides the handler in between, only those run that trigger nothing. -/
theorem Onset.beside (hon : Onset w φ e i rpc ph L) {k : HandlerId} (hki : k ≠ i)
    (hcalm : e.disturbs w k = false) : Triggers rpc = false := by
  cases hon with
  | arrived he => rw [he] at hcalm; exact hcalm
  | expired he => rfl
  | completed he hp =>
      rw [he, Event.disturbs, hp, Option.any_some, Bool.and_eq_false_iff] at hcalm
      rcases hcalm with hsame | hcalm
      · exact absurd (bne_eq_false_iff_eq.1 hsame).symm hki
      · exact hcalm
  | dequeued he => rw [he] at hcalm; cases hcalm

/-- A handler that waits is not resumed by what it does not wait for. -/
theorem Onset.spot (hon : Onset w φ e i rpc ph L) (ha : ledgerProtocol.Abides w φ)
    (hc : Attending w e w') : ph.spot ≠ .waiting := by
  intro hspot
  cases hon with
  | arrived | expired => cases hspot
  | completed he hp hφ hat hop =>
      have hcheckin := (holdAt_checkin hat).1 hspot
      generalize Suspended.op _ = op at hop hcheckin
      cases op with
      | checkin => cases hop
      | _ => cases hcheckin
  | dequeued he hj hp hφ hat =>
      have hcalm := hc.undisturbed ha (h := i) (by rw [spotAt_some hφ, hspot]; exact Spot.noConfusion)
      rw [he] at hcalm
      cases hcalm

omit [Keccak] in
theorem Onset.ledger (hon : Onset w φ e h rpc ph L) :
    L.waiting = w.shared.waitingCheckin ∧ ∀ a, Alarmed L a → Alarmed (Ledger.of w.shared) a := by
  cases hon with
  | expired => exact ⟨rfl, fun a ha => (alarmed_set ha).1⟩
  | arrived | completed | dequeued => exact ⟨rfl, fun a ha => ha⟩

omit [Keccak] in
/-- A deadline that expires is that of the entry, and it will not expire again. -/
theorem Onset.deadline {a : Nat} {φ₀ : HandlerId → Option Hold}
    (hon : Onset w φ e h (.checkinDeadline a) .fresh L)
    (hI : Tended φ₀ (Ledger.of w.shared)) (hok : L.ok = true) :
    ∃ cctx env, e = .alarm a env ∧ w.shared.alarms[a]? = some .fired ∧ L.waiting = some cctx ∧
      cctx.alarm = a ∧ cctx.status = none ∧ ∀ b, ¬ Alarmed L b := by
  generalize hrpc : Rpc.checkinDeadline a = rpc at hon
  generalize hph : Hold.fresh = ph at hon
  cases hon with
  | arrived _ hne => exact absurd hrpc.symm (hne a)
  | @expired a' env he =>
      cases hrpc
      have hfired : w.shared.alarms[a]? = some .fired := of_decide_eq_true hok
      rcases hI.alarm a (Or.inr hfired) with ⟨cctx, hw, hsame, hstatus⟩
      refine ⟨cctx, env, he, hfired, hw, hsame, hstatus, fun b hb => ?_⟩
      rcases alarmed_set hb with ⟨hb', hne⟩
      rcases hI.alarm b hb' with ⟨cctx', hw', hb'', -⟩
      rw [hw] at hw'
      cases hw'
      exact hne (hb''.symm.trans hsame)
  | completed _ _ _ hat => exact absurd hph.symm (holdAt_ne_fresh hat)
  | dequeued _ _ _ _ hat => exact absurd hph.symm (holdAt_ne_fresh hat)

omit [Keccak] in
/-- The phase of a CheckIn whose answer is acknowledged. -/
theorem Onset.acknowledged {address : String} {g : HandlerId}
    (hon : Onset w φ e h (.checkIn address) (.checkedIn g) L) : φ h = some (.checkedIn g) := by
  rcases hon.phase with ⟨hfresh, -⟩ | ⟨-, hφ⟩
  · cases hfresh
  · exact hφ

/-- Still one handler is in between after a step. -/
theorem passage_sole (hI : Tended φ (Ledger.of w.shared)) (hc : Attending w e w')
    (ha : ledgerProtocol.Abides w φ) (ha' : ledgerProtocol.Abides w' φ') (hstep : step w e = some w')
    (hpass : Passage w φ e i rpc ph L t φ' (Ledger.of w'.shared))
    (h k : HandlerId) (hh : spotAt φ' h ≠ .plain) (hk : spotAt φ' k ≠ .plain) : h = k := by
  have hbefore : ∀ k, k ≠ i → spotAt φ' k ≠ .plain → spotAt φ k ≠ .plain := by
    intro k hki hspot
    rw [spot_others (hpass.others k hki)] at hspot
    exact hspot
  -- besides another one, the handler that ran is not in between
  have hbeside : ∀ k, k ≠ i → spotAt φ' k ≠ .plain → spotAt φ' i = .plain := by
    intro k hki hspot
    by_contra hmine
    have hwaits : ∀ cctx, w.shared.waitingCheckin = some cctx → cctx.coroutine = i → False := by
      intro cctx hw hco
      have hi : spotAt φ i = .waiting := by
        rw [hI.registered.waiter i]
        show w.shared.waitingCheckin.map CheckinContext.coroutine = some i
        rw [hw, Option.map_some, hco]
      refine hki (hI.registered.sole k i (hbefore k hki hspot) ?_)
      rw [hi]
      exact Spot.noConfusion
    cases hpass.entry with
    | onset hon =>
        cases hφ : φ' i with
        | none => exact hmine (spotAt_none hφ)
        | some ph' =>
            rcases ha'.parked hφ with ⟨p, hp, hat⟩
            rw [spotAt_some hφ] at hmine
            have htriggers := holdAt_triggers hat hmine
            rw [passage_tag ha hstep hpass hp,
              hon.beside hki (hc.undisturbed ha (hbefore k hki hspot))] at htriggers
            cases htriggers
    | checkedIn hon =>
        rcases hI.answered _ i hon.acknowledged with ⟨cctx, hw, hco, -⟩
        exact hwaits cctx hw hco
    | expired hon hok hwait hco => exact hwaits _ (hon.ledger.1 ▸ hwait) hco
  by_cases hhi : h = i
  · by_cases hki : k = i
    · exact hhi.trans hki.symm
    · exact absurd (hbeside k hki hk) (hhi ▸ hh)
  · by_cases hki : k = i
    · exact absurd (hbeside h hhi hh) (hki ▸ hk)
    · exact hI.registered.sole h k (hbefore h hhi hh) (hbefore k hki hk)

/-- Who is left with an acknowledgement to come. -/
theorem passage_checkedIn {k g : HandlerId} {L' : Ledger}
    (hpass : Passage w φ e i rpc ph L t φ' L')
    (hnot : ∀ ph', t = some ph' → ∀ g, ph' ≠ .checkedIn g) (hk : φ' k = some (.checkedIn g)) :
    φ k = some (.checkedIn g) ∧ k ≠ i ∧ e.runner w ≠ some k := by
  have hki : k ≠ i := by
    rintro rfl
    exact hnot _ (hpass.after.symm.trans hk) g rfl
  refine ⟨?_, hki, fun hrunner => ?_⟩
  · rcases hpass.others k hki with hsame | ⟨hnone, -⟩
    · exact hsame.symm.trans hk
    · rw [hnone] at hk
      cases hk
  · rw [hpass.runnerOver k hrunner hki] at hk
    cases hk

/-- A CheckIn is only accepted by an entry that is as the step asks for. -/
theorem Onset.accepted {address : String} {cctx : CheckinContext}
    (hon : Onset w φ e i (.checkIn address) .fresh L) (hc : Attending w e w')
    (hstep : step w e = some w') (hparked : w'.handlers i ≠ none) (hsession : L.session ≠ none)
    (hwaiting : L.waiting = some cctx) :
    cctx.status = none ∧ L.alarms[cctx.alarm]? = some .running := by
  generalize hph : Hold.fresh = ph at hon
  generalize hrpc : Rpc.checkIn address = rpc at hon
  cases hon with
  | @arrived _ peer fuel env he hne hn =>
      subst hrpc he hn
      have hok : env.ok = true := by
        by_contra hok
        rw [Bool.not_eq_true] at hok
        have hseg : (newCheckinHandler address).seg (env.apply w.shared) = _ := seg_checkin_ignored hok
        rw [step_arrive (step_running hstep) hne] at hstep
        have hland := (World.advance_plain hseg fun op k hparked => by cases hparked).symm.trans hstep
        cases hland
        exact hparked (if_pos rfl)
      refine hc.answers cctx ?_
      have hsome : w.shared.session.isSome = true :=
        Option.isSome_iff_ne_none.2 fun hnone => hsession (Option.map_eq_none_iff.2 hnone)
      simp only [acceptsCheckin, hok, hsome, Bool.and_self, if_true]
      exact hwaiting
  | expired => cases hrpc
  | completed _ _ _ hat => exact absurd hph.symm (holdAt_ne_fresh hat)
  | dequeued _ _ _ _ hat => exact absurd hph.symm (holdAt_ne_fresh hat)

theorem tended_passage (hI : Tended φ (Ledger.of w.shared)) (hc : Attending w e w')
    (ha : ledgerProtocol.Abides w φ) (ha' : ledgerProtocol.Abides w' φ') (hstep : step w e = some w')
    (hpass : Passage w φ e i rpc ph L t φ' (Ledger.of w'.shared)) :
    Tended φ' (Ledger.of w'.shared) := by
  have hreg : Registered φ' (Ledger.of w'.shared) :=
    passage_registered hI.registered hpass (passage_sole hI hc ha ha' hstep hpass)
  have hmove := step_waits hpass.step
  generalize Ledger.of w'.shared = L' at hpass hreg hmove ⊢
  -- a step in which the wait ends
  have hended : ph.spot = .waiting → (∀ a, ¬ Alarmed L a) → (∀ k g, φ k = some (.checkedIn g) →
      e.runner w = some k) → Tended φ' L' := by
    intro hspot hcalm hdone
    cases hmove with
    | settle hwaiting halarms hnot =>
        have hleft : ∀ k g, φ' k ≠ some (.checkedIn g) := by
          intro k g hk
          rcases passage_checkedIn hpass (fun ph' h => (hnot ph' h).2) hk with ⟨hold, -, hne⟩
          exact hne (hdone k g hold)
        exact ⟨hreg, fun a h => absurd (alarmed_settle halarms h) (hcalm a),
          fun k g hk => absurd hk (hleft k g), fun k _ g _ hk => absurd hk (hleft k g)⟩
    | register hspot' =>
        rw [hspot] at hspot'
        rcases hspot' with h | ⟨rfl, -⟩
        · cases h
        · cases hspot
    | accept => cases hspot
    | expire => cases hspot
  cases hpass.entry with
  | onset hon =>
      have hwait := hon.ledger.1
      have halarm : ∀ a, Alarmed L a →
          ∃ cctx, L.waiting = some cctx ∧ cctx.alarm = a ∧ cctx.status = none :=
        fun a h => hwait ▸ hI.alarm a (hon.ledger.2 a h)
      have hanswered : ∀ k g, φ k = some (.checkedIn g) →
          ∃ cctx, L.waiting = some cctx ∧ cctx.coroutine = g ∧ cctx.status = some true :=
        fun k g hk => hwait ▸ hI.answered k g hk
      cases hmove with
      | settle hwaiting halarms hnot =>
          have hsame : L.settle ph.spot = L := by
            cases hs : ph.spot with
            | waiting => exact absurd hs (hon.spot ha hc)
            | plain => rfl
            | trigger => rfl
          rw [hsame] at hwaiting
          refine ⟨hreg, fun a h => hwaiting ▸ halarm a (alarmed_settle halarms h), fun k g hk => ?_,
            fun k k' g g' hk hk' => ?_⟩
          · exact hwaiting ▸ hanswered k g (passage_checkedIn hpass (fun ph' h => (hnot ph' h).2) hk).1
          · exact hI.once k k' g g' (passage_checkedIn hpass (fun ph' h => (hnot ph' h).2) hk).1
              (passage_checkedIn hpass (fun ph' h => (hnot ph' h).2) hk').1
      | @register _ _ ph' _ _ hspot hwaits hwaiting halarms =>
          have hnone : L.waiting = none := by
            rcases hspot with hspot | ⟨-, hnone⟩
            · rw [hwait]
              refine hI.registered.unregistered (h := i) ?_
              rw [← hspot]
              rcases hpass.entry.parked with ⟨rfl, -⟩ | ⟨hφ, -⟩
              · cases hspot
              · exact spotAt_some hφ
            · exact hnone
          have hleft : ∀ k g, φ' k ≠ some (.checkedIn g) := by
            intro k g hk
            have hnot : ∀ ph'', some ph' = some ph'' → ∀ g, ph'' ≠ .checkedIn g := by
              rintro ph'' h g rfl
              cases h
              cases hwaits
            rcases hanswered k g (passage_checkedIn hpass hnot hk).1 with ⟨cctx, hw, -⟩
            rw [hnone] at hw
            cases hw
          refine ⟨hreg, fun a h => ⟨_, hwaiting, ?_, rfl⟩, fun k g hk => absurd hk (hleft k g),
            fun k _ g _ hk => absurd hk (hleft k g)⟩
          unfold Alarmed at h
          rw [halarms] at h
          simp only [Ledger.register, hnone] at h
          by_contra hne
          have hlast : (L.alarms ++ [AlarmState.running])[a]? = L.alarms[a]? := by
            rcases Nat.lt_or_ge a L.alarms.length with hlt | hge
            · exact List.getElem?_append_left hlt
            · have hgt : L.alarms.length + 1 ≤ a := by
                have hne' : L.alarms.length ≠ a := hne
                omega
              rw [List.getElem?_eq_none hge, List.getElem?_eq_none (by simpa using hgt)]
          rw [hlast] at h
          rcases halarm a h with ⟨cctx, hw, -⟩
          rw [hnone] at hw
          cases hw
      | @accept address _ cctx hsession hwaiting =>
          rcases ha'.parked hpass.after with ⟨p, hp, -⟩
          rcases hon.accepted hc hstep (by rw [hp]; exact Option.some_ne_none p) hsession hwaiting with
            ⟨hunset, hruns⟩
          have hmine : ∀ k g, φ' k = some (.checkedIn g) → k = i := by
            intro k g hk
            by_contra hki
            rcases hpass.others k hki with hsame | ⟨hnone, -⟩
            · rcases hanswered k g (hsame.symm.trans hk) with ⟨cctx', hw, -, hset⟩
              rw [hwaiting] at hw
              cases hw
              rw [hunset] at hset
              cases hset
            · rw [hnone] at hk
              cases hk
          refine ⟨hreg, fun a h => ?_, fun k g hk => ?_,
            fun k k' g g' hk hk' => (hmine k g hk).trans (hmine k' g' hk').symm⟩
          · -- the alarm of the entry was cancelled
            have hcancelled : Alarmed L.cancel a := h
            unfold Alarmed Ledger.cancel at hcancelled
            simp only [hwaiting] at hcancelled
            rcases alarmed_cancel hcancelled with ⟨hbefore, hown⟩
            rcases halarm a hbefore with ⟨cctx', hw, hsame, -⟩
            rw [hwaiting] at hw
            cases hw
            have hfired := hown hsame.symm
            rw [← hsame, hruns] at hfired
            cases hfired
          · have hki := hmine k g hk
            subst hki
            have hk' := hpass.after.symm.trans hk
            cases hk'
            refine ⟨{ cctx with status := some true }, ?_, rfl, rfl⟩
            show L.waiting.map _ = _
            rw [hwaiting]
            rfl
      | expire hok hwaiting =>
          rcases hon.deadline hI hok with ⟨cctx', -, -, -, hw, -, hunset, hcalm⟩
          have hleft : ∀ k g, φ' k ≠ some (.checkedIn g) := by
            intro k g hk
            have hold := (passage_checkedIn hpass (fun ph' h g' => by cases h; exact Hold.noConfusion)
              hk).1
            rcases hanswered k g hold with ⟨cctx'', hw', -, hset⟩
            rw [hw] at hw'
            cases hw'
            rw [hunset] at hset
            cases hset
          exact ⟨hreg, fun a h => absurd h (hcalm a), fun k g hk => absurd hk (hleft k g),
            fun k _ g _ hk => absurd hk (hleft k g)⟩
  | checkedIn hon hdirect hne hp hφ hat =>
      rcases hI.answered _ i hon.acknowledged with ⟨cctx, hw, hco, hset⟩
      have hi : spotAt φ i = .waiting := (hI.registered.waiter i).2 (by rw [hw, Option.map_some, hco])
      refine hended ((spotAt_some hφ).symm.trans hi) (fun a h => ?_) fun k g hk => ?_
      · rcases hI.alarm a (hon.ledger.2 a h) with ⟨cctx', hw', -, hunset⟩
        rw [hw] at hw'
        cases hw'
        rw [hset] at hunset
        cases hunset
      · rw [hI.once k _ g i hk hon.acknowledged]
        exact hon.runner
  | expired hon hok hwait hco hdirect hne hp hφ hat =>
      rcases hon.deadline hI hok with ⟨cctx, env, -, -, hw, -, hunset, hcalm⟩
      have hw₀ : w.shared.waitingCheckin = some cctx := hon.ledger.1 ▸ hw
      rw [hwait] at hw
      cases hw
      have hi : spotAt φ i = .waiting := by
        rw [hI.registered.waiter i]
        show w.shared.waitingCheckin.map CheckinContext.coroutine = some i
        rw [hw₀, Option.map_some, hco]
      refine hended ((spotAt_some hφ).symm.trans hi) hcalm fun k g hk => ?_
      rcases hI.answered k g hk with ⟨cctx', hw', -, hset⟩
      have hw'' : w.shared.waitingCheckin = some cctx' := hw'
      rw [hw₀] at hw''
      cases hw''
      rw [hunset] at hset
      cases hset

/-! ### Numbers of waits -/

omit [Keccak] in
theorem settle_length (L : Ledger) (spot : Spot) :
    (L.settle spot).alarms.length = L.alarms.length := by
  cases spot with
  | waiting =>
      unfold Ledger.settle Ledger.erase
      cases L.waiting with
      | none => rfl
      | some cctx => exact List.length_modify ..
  | plain => rfl
  | trigger => rfl

omit [Keccak] in
theorem map_mark (L : Ledger) (status : Bool) :
    (L.mark status).waiting.map CheckinContext.alarm = L.waiting.map CheckinContext.alarm := by
  unfold Ledger.mark
  rw [Option.map_map]
  rfl

omit [Keccak] in
/-- A segment sets no alarm or one, and gives the entry no alarm but the new one. -/
theorem move_alarm {L' : Ledger} (hmove : WaitMove i rpc ph L t L') :
    L.alarms.length ≤ L'.alarms.length ∧ ∀ a, L'.waiting.map CheckinContext.alarm = some a →
      L.waiting.map CheckinContext.alarm = some a ∨
        (a = L.alarms.length ∧ L.alarms.length < L'.alarms.length) := by
  cases hmove with
  | settle hwaiting halarms =>
      refine ⟨by rw [halarms, settle_length], fun a ha => Or.inl ?_⟩
      rw [hwaiting] at ha
      cases hs : ph.spot with
      | waiting =>
          rw [hs] at ha
          cases ha
      | plain => rw [hs] at ha; exact ha
      | trigger => rw [hs] at ha; exact ha
  | register _ _ hwaiting halarms =>
      have hlength : L'.alarms.length = L.alarms.length + 1 := by
        rw [halarms, Ledger.register, List.length_append]
        cases L.waiting with
        | none => rfl
        | some old => exact congrArg (· + 1) (List.length_modify ..)
      refine ⟨by omega, fun a ha => Or.inr ?_⟩
      rw [hwaiting] at ha
      cases ha
      exact ⟨rfl, by omega⟩
  | accept _ hwaiting =>
      refine ⟨Nat.le_of_eq ?_, fun a ha => Or.inl ((map_mark L.cancel true).symm.trans ha)⟩
      show _ = (L.cancel).alarms.length
      rw [Ledger.cancel, hwaiting]
      exact (List.length_modify ..).symm
  | expire => exact ⟨Nat.le_refl _, fun a ha => Or.inl ((map_mark L false).symm.trans ha)⟩

/-- A handler that begins to run finds an entry with the same alarm. -/
theorem Entry.alarm (hentry : Entry w φ e i rpc ph L) :
    L.waiting.map CheckinContext.alarm = w.shared.waitingCheckin.map CheckinContext.alarm ∧
      L.alarms.length = w.shared.alarms.length := by
  have honset : ∀ {h rpc ph L}, Onset w φ e h rpc ph L →
      L.waiting.map CheckinContext.alarm = w.shared.waitingCheckin.map CheckinContext.alarm ∧
        L.alarms.length = w.shared.alarms.length := by
    intro h rpc ph L hon
    cases hon with
    | expired => exact ⟨rfl, List.length_set ..⟩
    | arrived | completed | dequeued => exact ⟨rfl, rfl⟩
  cases hentry with
  | onset hon => exact honset hon
  | checkedIn hon => exact honset hon
  | expired hon =>
      exact ⟨(map_mark _ false).trans (honset hon).1, (honset hon).2⟩

/-- The alarm of the entry is one of those that were set. -/
def Allotted (_ : HandlerId → Option Hold) (L : Ledger) : Prop :=
  ∀ a, L.waiting.map CheckinContext.alarm = some a → a < L.alarms.length

/-- The wait with alarm `a` is over. -/
def Past (a : Nat) (_ : HandlerId → Option Hold) (L : Ledger) : Prop :=
  a < L.alarms.length ∧ L.waiting.map CheckinContext.alarm ≠ some a

theorem allotted_passage (hI : Allotted φ (Ledger.of w.shared))
    (hpass : Passage w φ e i rpc ph L t φ' (Ledger.of w'.shared)) :
    Allotted φ' (Ledger.of w'.shared) := by
  intro a ha
  rcases hpass.entry.alarm with ⟨hsame, hlength⟩
  rcases move_alarm (step_waits hpass.step) with ⟨hle, hnew⟩
  rcases hnew a ha with hold | ⟨rfl, hlt⟩
  · have hbefore : a < w.shared.alarms.length := hI a (hsame.symm.trans hold)
    omega
  · exact hlt

theorem past_passage {a : Nat} (hI : Past a φ (Ledger.of w.shared))
    (hpass : Passage w φ e i rpc ph L t φ' (Ledger.of w'.shared)) :
    Past a φ' (Ledger.of w'.shared) := by
  rcases hpass.entry.alarm with ⟨hsame, hlength⟩
  rcases move_alarm (step_waits hpass.step) with ⟨hle, hnew⟩
  have hbefore : a < w.shared.alarms.length := hI.1
  refine ⟨by omega, fun ha => ?_⟩
  rcases hnew a ha with hold | ⟨rfl, -⟩
  · exact hI.2 (hsame.symm.trans hold)
  · omega

end Invariant

/-! ### Who resumes on the spot -/

section Resumes

variable [Keccak] {w w' : Manager} {φ : HandlerId → Option Hold} {e : Event} {h g : HandlerId}
  {rpc : Rpc} {ph : Hold} {c : Handler Unit} {s : HandlerContext}

omit [Keccak] in
/-- A segment that ends in a direct resume is a step to it. -/
theorem seg_wakes (hk : ledgerProtocol.Keeps h rpc c ph s) (htarget : c.target s = some g) :
    LedgerStep h rpc ph (Ledger.of s) (some (.resuming g)) (Ledger.of (c.seg s).2) := by
  have hseg := sat_seg hk
  rcases hsg : c.seg s with ⟨l, s'⟩
  rw [hsg] at hseg
  unfold Prog.target at htarget
  rw [hsg] at htarget
  cases l with
  | parked op k =>
      rcases hseg with ⟨ph', hat, hstep, -⟩
      rw [holdAt_target hat htarget] at hstep
      exact hstep.2
  | _ => cases htarget

/-- The check-in status that a handler finds which the event resumes on the spot. -/
def statusFound (w : Manager) : Event → Option Bool
  | .complete h reply env =>
    (w.handlers h).bind fun p =>
      ((p.k (reply p.op)).seg (env.apply w.shared)).2.waitingCheckin.bind CheckinContext.status
  | .alarm i env =>
    let ok := decide (w.shared.alarms[i]? = some AlarmState.fired)
    ((handlerOf 0 "" (.checkinDeadline i) w.next).seg
      ({ env with ok := ok }.apply (setAlarm w i .delivered).shared)).2.waitingCheckin.bind
        CheckinContext.status
  | _ => none

/-- A handler is resumed on the spot by a CheckIn that was acknowledged, or by a deadline. -/
theorem direct_wakes (ha : ledgerProtocol.Abides w φ) (hstep : step w e = some w')
    (hdirect : directTarget w e = some g) :
    (∃ i env k, e = .dequeue i env ∧ φ k = some (.checkedIn g)) ∨
      (∃ h address reply env p, e = .complete h reply env ∧ w.handlers h = some p ∧
        p.tag = .checkIn address ∧ φ h = some (.checkedIn g) ∧
          statusFound w e = w.shared.waitingCheckin.bind CheckinContext.status) ∨
        ∃ a env cctx, e = .alarm a env ∧ w.shared.alarms[a]? = some .fired ∧
          w.shared.waitingCheckin = some cctx ∧ cctx.coroutine = g ∧ statusFound w e = some false := by
  cases e with
  | arrive rpc peer fuel env =>
      have hwakes := seg_wakes (keeps_ledger fuel peer rpc w.next (env.apply w.shared)) hdirect
      rcases step_wakes hwakes with ⟨_, -, hfresh, -⟩ | ⟨a, _, rfl, -⟩
      · cases hfresh
      · unfold step at hstep
        split at hstep
        · cases hstep
        · cases hstep
  | complete h reply env =>
      cases hp : w.handlers h with
      | none => rw [directTarget, hp] at hdirect; cases hdirect
      | some p =>
          rw [directTarget, hp] at hdirect
          rcases ha.phase hp with ⟨ph, hφ, hat, hk⟩
          have hwakes := seg_wakes (hk (reply p.op) (env.apply w.shared) trivial) hdirect
          rcases step_wakes hwakes with ⟨address, htag, rfl, hL⟩ | ⟨_, _, _, hfresh, -⟩
          · refine Or.inr (Or.inl ⟨h, address, reply, env, p, rfl, hp, htag, hφ, ?_⟩)
            rw [statusFound, hp]
            exact congrArg (fun L => L.waiting.bind CheckinContext.status) hL
          · exact absurd hfresh (holdAt_ne_fresh hat)
  | dequeue i env =>
      cases hi : (w.shared.completionQueue[i]?).join with
      | none => rw [directTarget, hi] at hdirect; cases hdirect
      | some k =>
          cases hp : w.handlers k with
          | none => rw [directTarget, hi, Option.bind_some, hp] at hdirect; cases hdirect
          | some p =>
              rw [directTarget, hi, Option.bind_some, hp] at hdirect
              rcases ha.phase hp with ⟨ph, hφ, hat, hk⟩
              rcases step_wakes (seg_wakes (hk default _ trivial) hdirect) with
                ⟨_, _, rfl, -⟩ | ⟨_, _, _, hfresh, -⟩
              · exact Or.inl ⟨i, env, k, rfl, hφ⟩
              · exact absurd hfresh (holdAt_ne_fresh hat)
  | fire a => cases hdirect
  | alarm a env =>
      have hwakes := seg_wakes (keeps_ledger 0 "" (.checkinDeadline a) w.next _) hdirect
      rcases step_wakes hwakes with ⟨_, hrpc, -⟩ | ⟨_, cctx, -, -, hok, hw, hco, hL⟩
      · cases hrpc
      · refine Or.inr (Or.inr ⟨a, env, cctx, rfl, of_decide_eq_true hok, hw, hco, ?_⟩)
        have hfound := congrArg (fun L => L.waiting.bind CheckinContext.status) hL
        refine hfound.trans ?_
        show (Option.map _ (Ledger.waiting _)).bind _ = _
        rw [hw]
        rfl
  | completeStale i => cases hdirect

end Resumes

/-! ### Waits end once -/

section Ends

variable [Keccak] {w w' : Manager} {e : Event} {hctx : HandlerContext}

/-- The CheckIn was accepted, and waits for its answer to be acknowledged. -/
def acknowledges (w : Manager) (k : HandlerId) : Bool :=
  (w.handlers k).any fun p => match p.tag, p.op with
    | .checkIn _, .finish _ => true
    | _, _ => false

/-- The event that ends the wait, and the status it leaves: the acknowledgement of the one
    CheckIn that was accepted, or the alarm of the wait itself, before any CheckIn. -/
inductive EndedBy (w : Manager) (cctx : CheckinContext) : Event → Bool → Prop
  | checkIn {k : HandlerId} {reply : (op : Op) → op.Reply} {env : Environment}
      (hk : acknowledges w k = true) (hone : ∀ k', acknowledges w k' = true → k' = k)
      (hstatus : cctx.status = some true) : EndedBy w cctx (.complete k reply env) true
  | deadline {env : Environment} (hfired : w.shared.alarms[cctx.alarm]? = some .fired)
      (hstatus : cctx.status = none) (hnone : ∀ k, acknowledges w k = false) :
      EndedBy w cctx (.alarm cctx.alarm env) false

/-- The event that resumes handler `g` on the spot ends its wait. -/
structure Ends (w : Manager) (e : Event) (w' : Manager) (g : HandlerId) : Prop where
  suspended : ∃ p, w.handlers g = some p ∧ p.op.isCheckin = true
  ended : ∃ cctx status, w.shared.waitingCheckin = some cctx ∧ cctx.coroutine = g ∧
    EndedBy w cctx e status ∧ statusFound w e = some status ∧
      ∀ w₂, Runs step (fun _ _ _ => True) w' w₂ → w₂.halted = none →
        ∀ later, w₂.shared.waitingCheckin = some later → later.alarm ≠ cctx.alarm

omit [Keccak] in
theorem acknowledges_iff {φ : HandlerId → Option Hold} (ha : ledgerProtocol.Abides w φ)
    (k : HandlerId) : acknowledges w k = true ↔ ∃ g, φ k = some (.checkedIn g) := by
  unfold acknowledges
  cases hp : w.handlers k with
  | none =>
      rw [ha.absent hp]
      exact ⟨fun h => Bool.noConfusion h, fun ⟨g, hg⟩ => by cases hg⟩
  | some p =>
      rcases ha.phase hp with ⟨ph, hφ, hat, -⟩
      rw [hφ, Option.any_some]
      rcases p with ⟨tag, op, k⟩
      dsimp only at hat ⊢
      cases hat with
      | checkedIn => exact ⟨fun _ => ⟨_, rfl⟩, fun _ => rfl⟩
      | answered hrpc =>
          cases tag with
          | checkIn => cases hrpc
          | _ => exact ⟨fun h => Bool.noConfusion h, fun ⟨g, hg⟩ => by cases hg⟩
      | refused =>
          cases tag with
          | _ => exact ⟨fun h => Bool.noConfusion h, fun ⟨g, hg⟩ => by cases hg⟩
      | calling hrpc =>
          cases tag with
          | _ => exact ⟨fun h => Bool.noConfusion h, fun ⟨g, hg⟩ => by cases hg⟩
      | resuming =>
          cases tag with
          | _ => exact ⟨fun h => Bool.noConfusion h, fun ⟨g, hg⟩ => by cases hg⟩
      | _ => exact ⟨fun h => Bool.noConfusion h, fun ⟨g, hg⟩ => by cases hg⟩

/-- What holds between two steps that leave the waits alone. -/
def Tidy (φ : HandlerId → Option Hold) (L : Ledger) : Prop :=
  Custody φ L ∧ Tended φ L ∧ Allotted φ L

omit [Keccak] in
theorem Tended.fire {φ : HandlerId → Option Hold} {L : Ledger} {a : Nat}
    (hruns : L.alarms[a]? = some .running) (hI : Tended φ L) :
    Tended φ { L with alarms := L.alarms.set a .fired } := by
  refine ⟨hI.registered.congr rfl, fun b hb => hI.alarm b ?_, hI.answered, hI.once⟩
  by_cases hab : a = b
  · exact Or.inl (hab ▸ hruns)
  · have hb' : (L.alarms.set a .fired)[b]? = some .running ∨
        (L.alarms.set a .fired)[b]? = some .fired := hb
    rw [List.getElem?_set_ne hab] at hb'
    exact hb'

theorem runs_tidy (hnone : hctx.waitingCheckin = none) (halarms : hctx.alarms = [])
    (hrun : Runs step Attending (idle hctx) w) : w.halted = none → Sound Tidy w := by
  have hidle : Sound Tidy (idle hctx) := by
    rcases custody_idle hctx with ⟨φ, ha, hcustody⟩
    have hφ : φ = fun _ => none := funext fun h => ha.absent rfl
    subst hφ
    refine sound_idle ⟨hcustody, ⟨registered_idle hnone, fun a h => ?_, fun k g h => (nomatch h),
      fun k _ g _ h => (nomatch h)⟩, fun a h => ?_⟩
    · have h' : hctx.alarms[a]? = some .running ∨ hctx.alarms[a]? = some .fired := h
      rw [halarms] at h'
      rcases h' with h' | h'
      · cases h'
      · cases h'
    · have h' : hctx.waitingCheckin.map CheckinContext.alarm = some a := h
      rw [hnone] at h'
      cases h'
  refine runs_sound hrun hidle (fun hruns hI => ⟨hI.1.congr rfl, hI.2.1.fire hruns, ?_⟩)
    fun hc hstep ha ha' hI hpass => ⟨passage_custody hc.custody ha hI.1 hpass,
      tended_passage hI.2.1 hc ha ha' hstep hpass, allotted_passage hI.2.2 hpass⟩
  intro b hb
  exact Nat.lt_of_lt_of_eq (hI.2.2 b hb) (List.length_set ..).symm

/-- A wait that is over stays so. -/
theorem runs_past {φ : HandlerId → Option Hold} {a : Nat} {w₂ : Manager}
    (ha : ledgerProtocol.Abides w φ) (hpast : Past a φ (Ledger.of w.shared))
    (hrun : Runs step (fun _ _ _ => True) w w₂) (hlive : w₂.halted = none) (later : CheckinContext)
    (hlater : w₂.shared.waitingCheckin = some later) : later.alarm ≠ a := by
  have hsound : Sound (Past a) w₂ := by
    refine runs_sound hrun ⟨φ, ha, hpast⟩ (fun _ hI => ⟨?_, hI.2⟩)
      (fun _ _ _ _ hI hpass => past_passage hI hpass) hlive
    exact Nat.lt_of_lt_of_eq hI.1 (List.length_set ..).symm
  rcases hsound with ⟨φ₂, -, -, hne⟩
  rintro rfl
  refine hne ?_
  show w₂.shared.waitingCheckin.map CheckinContext.alarm = _
  rw [hlater]
  rfl

omit [Keccak] in
theorem foreign_exits {x : Halt} (hforeign : x.foreign = true) : x.exits = false := by
  cases x with
  | alreadyWaitingCheckin | checkinContextErased | checkinStatusNotSet | deadlineNotRegistered
  | deadlineNotFound => cases hforeign
  | _ => rfl

omit [Keccak] in
/-- A handler that finds a status after its wait takes no exit. -/
theorem crash_waited {rpc : Rpc} {ph : Hold} {L : Ledger} {x : Halt} {cctx : CheckinContext}
    {status : Bool} (hspot : ph.spot = .waiting) (hw : L.waiting = some cctx)
    (hset : cctx.status = some status) (hcrash : LedgerCrash rpc ph L x) : x.exits = false := by
  cases hcrash with
  | waiting _ hw' =>
      rw [hspot] at hw'
      exact absurd rfl hw'
  | erased _ hnone =>
      rw [hw] at hnone
      cases hnone
  | unset _ hw' hunset =>
      rw [hw] at hw'
      cases hw'
      rw [hset] at hunset
      cases hunset
  | notFound => cases hspot
  | other hx => exact foreign_exits hx

omit [Keccak] in
/-- The handler that the entry names waits. -/
theorem Tended.waits {φ : HandlerId → Option Hold} (hI : Tended φ (Ledger.of w.shared))
    {cctx : CheckinContext} (hw : w.shared.waitingCheckin = some cctx) :
    spotAt φ cctx.coroutine = .waiting := by
  rw [hI.registered.waiter]
  show w.shared.waitingCheckin.map CheckinContext.coroutine = _
  rw [hw]
  rfl

/-- A handler that is resumed on the spot waits, and finds a status. -/
theorem Entry.waited {φ : HandlerId → Option Hold} {i : HandlerId} {rpc : Rpc} {ph : Hold} {L : Ledger}
    (hentry : Entry w φ e i rpc ph L) (hI : Tended φ (Ledger.of w.shared))
    (hdirect : directTarget w e ≠ none) : ph.spot = .waiting ∧
      ∃ cctx status, L.waiting = some cctx ∧ cctx.status = some status := by
  cases hentry with
  | onset _ hnone => exact absurd hnone hdirect
  | checkedIn hon _ _ _ hφ =>
      rcases hI.answered _ i hon.acknowledged with ⟨cctx, hw, rfl, hset⟩
      exact ⟨(spotAt_some hφ).symm.trans (hI.waits hw), cctx, true, hon.ledger.1.trans hw, hset⟩
  | @expired _ _ cctx _ _ _ hon _ hwait hco _ _ _ hφ =>
      subst hco
      have hw : w.shared.waitingCheckin = some cctx := hon.ledger.1 ▸ hwait
      refine ⟨(spotAt_some hφ).symm.trans (hI.waits hw), { cctx with status := some false }, false, ?_,
        rfl⟩
      show Option.map _ _ = _
      rw [hwait]
      rfl

/-- The process does not end by one of the exits. -/
theorem no_exit {φ : HandlerId → Option Hold} (ha : ledgerProtocol.Abides w φ)
    (hI : Tidy φ (Ledger.of w.shared)) (hc : Attending w e w') {x : Halt} (hfault : Fault w φ e x) :
    x.exits = false := by
  rcases hfault with hforeign | ⟨i, rpc, ph, L, hentry, hran, hcrash⟩
  · exact foreign_exits hforeign
  have hcrash' : LedgerCrash rpc ph L x :=
    hcrash (hI.1.borrowed hentry.parked (hc.custody.not_ended ha hentry hran))
  by_cases hdirect : directTarget w e = none
  · cases hentry with
    | checkedIn _ hsome => rw [hdirect] at hsome; cases hsome
    | expired _ _ _ _ hsome => rw [hdirect] at hsome; cases hsome
    | onset hon =>
        have hspot := hon.spot ha hc
        cases hcrash' with
        | waiting htriggers hw =>
            have hsome : w.shared.waitingCheckin ≠ none := by
              rw [← hon.ledger.1]
              cases hs : ph.spot with
              | waiting => exact absurd hs hspot
              | plain => rw [hs] at hw; exact hw
              | trigger => rw [hs] at hw; exact hw
            rcases Option.ne_none_iff_exists'.1 hsome with ⟨cctx, hw'⟩
            have hk := hI.2.1.waits hw'
            have hki : cctx.coroutine ≠ i := by
              intro hki
              rw [hki] at hk
              rcases hon.phase with ⟨-, hφ, -⟩ | ⟨-, hφ⟩
              · rw [spotAt_none hφ] at hk
                cases hk
              · exact hspot ((spotAt_some hφ).symm.trans hk)
            have hcalm := hc.undisturbed ha (h := cctx.coroutine) (by rw [hk]; exact Spot.noConfusion)
            rw [hon.beside hki hcalm] at htriggers
            cases htriggers
        | erased hwaiting => exact absurd hwaiting hspot
        | unset hwaiting => exact absurd hwaiting hspot
        | notFound hrpc hok hnone =>
            subst hrpc
            rcases hon.deadline hI.2.1 hok with ⟨cctx, _, -, -, hw, -⟩
            rw [hnone] at hw
            cases hw
        | other hx => exact foreign_exits hx
  · rcases hentry.waited hI.2.1 hdirect with ⟨hspot, cctx, status, hw, hset⟩
    exact crash_waited hspot hw hset hcrash'

omit [Keccak] in
/-- A handler that waited has erased the entry. -/
theorem move_ends {i : HandlerId} {rpc : Rpc} {ph : Hold} {L L' : Ledger} {t : Option Hold}
    (hmove : WaitMove i rpc ph L t L') (hspot : ph.spot = .waiting) : L'.waiting = none := by
  cases hmove with
  | settle hwaiting =>
      rw [hwaiting, hspot]
      rfl
  | register hspot' =>
      rcases hspot' with htrigger | ⟨rfl, -⟩
      · rw [hspot] at htrigger
        cases htrigger
      · cases hspot
  | accept => cases hspot
  | expire => cases hspot

/-- After a direct resume the wait is over for good. -/
theorem wait_past {φ : HandlerId → Option Hold} {g : HandlerId} {cctx : CheckinContext} {w₂ : Manager}
    (ha : ledgerProtocol.Abides w φ) (hI : Tidy φ (Ledger.of w.shared)) (hstep : step w e = some w')
    (hdirect : directTarget w e = some g) (hw : w.shared.waitingCheckin = some cctx)
    (hrun : Runs step (fun _ _ _ => True) w' w₂) (hlive : w₂.halted = none) (later : CheckinContext)
    (hlater : w₂.shared.waitingCheckin = some later) : later.alarm ≠ cctx.alarm := by
  have hlive' : w'.halted = none := by
    cases hx : w'.halted with
    | none => rfl
    | some x =>
        have hsame : w₂.halted.isSome = true :=
          runs_invariant hrun (I := fun w => w.halted.isSome = true) (by rw [hx]; rfl)
            fun w₁ e w₃ hsome hs _ => by rw [step_running hs] at hsome; cases hsome
        rw [hlive] at hsame
        cases hsame
  have hsome : directTarget w e ≠ none := by
    rw [hdirect]
    exact Option.some_ne_none g
  rcases step_passes ha hstep with
    ⟨x, hx, -⟩ | ⟨-, φ', ha', ⟨a, rfl, -⟩ | ⟨i, rpc, ph, L, t, hpass⟩⟩
  · rw [hlive'] at hx
    cases hx
  · cases hdirect
  · refine runs_past ha' ⟨?_, ?_⟩ hrun hlive later hlater
    · have hbefore : cctx.alarm < w.shared.alarms.length :=
        hI.2.2 cctx.alarm (by show w.shared.waitingCheckin.map _ = _; rw [hw]; rfl)
      have hle := (move_alarm (step_waits hpass.step)).1
      have hlength := hpass.entry.alarm.2
      exact Nat.lt_of_lt_of_le (hlength ▸ hbefore) hle
    · have hgone := move_ends (step_waits hpass.step) (hpass.entry.waited hI.2.1 hsome).1
      rw [hgone]
      exact fun h => by cases h

omit [Keccak] in
theorem suspended_of_waits {φ : HandlerId → Option Hold} {g : HandlerId}
    (ha : ledgerProtocol.Abides w φ) (hg : spotAt φ g = .waiting) :
    ∃ p, w.handlers g = some p ∧ p.op.isCheckin = true := by
  cases hφ : φ g with
  | none =>
      rw [spotAt_none hφ] at hg
      cases hg
  | some ph =>
      rcases ha.parked hφ with ⟨p, hp, -⟩
      exact ⟨p, hp, (isCheckin_iff ha hp).2 hg⟩

/-- As long as a CheckIn is only accepted by an entry that has no status and whose alarm
    has not fired, and nothing else disturbs a handler in `trigger_and_wait_checkin`, no
    exit is taken, and whoever is resumed on the spot waits, and finds the status that the
    event has left that ends its wait. The wait does not come back. -/
theorem waits_end_once (hnone : hctx.waitingCheckin = none) (halarms : hctx.alarms = [])
    (hrun : Runs step Attending (idle hctx) w) (hstep : step w e = some w') (hc : Attending w e w') :
    (∀ x, w'.halted = some x → x.exits = false) ∧
      ∀ g, directTarget w e = some g → Ends w e w' g := by
  rcases runs_tidy hnone halarms hrun (step_running hstep) with ⟨φ, ha, hI⟩
  refine ⟨fun x hx => ?_, fun g hg => ?_⟩
  · rcases step_passes ha hstep with ⟨x', hx', hfault⟩ | ⟨hlive, -⟩
    · rw [hx] at hx'
      cases hx'
      exact no_exit ha hI hc hfault
    · rw [hx] at hlive
      cases hlive
  · rcases direct_wakes ha hstep hg with ⟨i, env, k, rfl, hφ⟩ |
      ⟨h, address, reply, env, p, rfl, hp, htag, hφ, hfound⟩ |
      ⟨a, env, cctx, rfl, hfired, hw, hco, hfound⟩
    · -- a handler that waits is not disturbed by the completion queue
      rcases hI.2.1.answered k g hφ with ⟨cctx, hw, rfl, -⟩
      have hcalm := hc.undisturbed ha (h := cctx.coroutine)
        (by rw [hI.2.1.waits hw]; exact Spot.noConfusion)
      cases hcalm
    · rcases hI.2.1.answered h g hφ with ⟨cctx, hw, rfl, hset⟩
      have hw' : w.shared.waitingCheckin = some cctx := hw
      refine ⟨suspended_of_waits ha (hI.2.1.waits hw), cctx, true, hw, rfl, ?_, ?_, fun w₂ hrun₂ =>
        wait_past ha hI hstep hg hw hrun₂⟩
      · refine .checkIn ((acknowledges_iff ha h).2 ⟨_, hφ⟩) (fun k' hk' => ?_) hset
        rcases (acknowledges_iff ha k').1 hk' with ⟨g', hg'⟩
        exact hI.2.1.once k' h g' _ hg' hφ
      · rw [hfound, hw', Option.bind_some, hset]
    · subst hco
      rcases hI.2.1.alarm a (Or.inr hfired) with ⟨cctx', hw', rfl, hunset⟩
      have hsame : cctx' = cctx := Option.some.inj (Eq.trans (Eq.symm hw') hw)
      subst hsame
      refine ⟨suspended_of_waits ha (hI.2.1.waits hw), cctx', false, hw, rfl,
        .deadline hfired hunset fun k => ?_, hfound, fun w₂ hrun₂ => wait_past ha hI hstep hg hw hrun₂⟩
      by_contra hk
      rw [Bool.not_eq_false] at hk
      rcases (acknowledges_iff ha k).1 hk with ⟨g, hφ⟩
      rcases hI.2.1.answered k g hφ with ⟨cctx'', hw'', -, hset⟩
      rw [hw'] at hw''
      cases hw''
      rw [hunset] at hset
      cases hset

end Ends

/-! ### On the sample -/

attribute [local instance] keccak256

/-- The server checks in twice after a snapshot. The first CheckIn is acknowledged and
    resumes AdvanceState, which goes on to the rollback. -/
def twiceEvents : List Event :=
  startEvents ++ [.request (.advanceState (sampleRequest 0)), .answered 2, .answered 2, .checkIn,
    .checkIn, .answered 3]

/-- The alarm fires before the server checks in. -/
def lateEvents : List Event :=
  startEvents ++ [.request (.advanceState (sampleRequest 0)), .answered 2, .answered 2, .fire 1,
    .checkIn, .answered 3, .alarm 1 calm]

/-- A second CheckIn resumes AdvanceState in the middle of another call, and a deadline
    whose wait is over ends the process. -/
theorem wait_ended_twice : (∃ w w' g, Runs step Apart (idle emptyContext) w ∧
    step w (.answered 4) = some w' ∧ directTarget w (.answered 4) = some g ∧
      ¬ Ends w (.answered 4) w' g) ∧
    ∃ w, Runs step Apart (idle emptyContext) w ∧ w.halted = some .deadlineNotFound := by
  constructor
  · have hplay : ∃ w, Runs step Apart (idle emptyContext) w ∧
        ((step w (.answered 4)).isSome && (directTarget w (.answered 4) == some 2 &&
          (w.handlers 2).all fun p => !p.op.isCheckin)) = true :=
      exists_run (fun w e w' => decide (Apart w e w')) twiceEvents
        (fun _ _ _ h => of_decide_eq_true h) (by decide +kernel)
    rcases hplay with ⟨w, hrun, hw⟩
    simp only [Bool.and_eq_true, beq_iff_eq] at hw
    rcases hw with ⟨hstep, hdirect, hcall⟩
    rcases Option.isSome_iff_exists.1 hstep with ⟨w', hw'⟩
    refine ⟨w, w', 2, hrun, hw', hdirect, fun hends => ?_⟩
    rcases hends.suspended with ⟨p, hp, hcheckin⟩
    rw [hp, Option.all_some, hcheckin] at hcall
    cases hcall
  · have hplay : ∃ w, Runs step Apart (idle emptyContext) w ∧
        (w.halted == some .deadlineNotFound) = true :=
      exists_run (fun w e w' => decide (Apart w e w')) lateEvents
        (fun _ _ _ h => of_decide_eq_true h) (by decide +kernel)
    rcases hplay with ⟨w, hrun, hw⟩
    exact ⟨w, hrun, beq_iff_eq.1 hw⟩

/-- One CheckIn after the snapshot ends the wait. -/
theorem waits_end_once_sample : ∃ w w', Runs step Attending (idle emptyContext) w ∧
    step w (.answered 3) = some w' ∧ Ends w (.answered 3) w' 2 := by
  have hplay : ∃ w, Runs step Attending (idle emptyContext) w ∧
      ((step w (.answered 3)).any fun w' => decide (Attending w (.answered 3) w') &&
        directTarget w (.answered 3) == some 2) = true :=
    exists_run (fun w e w' => decide (Attending w e w'))
      (startEvents ++ [.request (.advanceState (sampleRequest 0)), .answered 2, .answered 2, .checkIn])
      (fun _ _ _ h => of_decide_eq_true h) (by decide +kernel)
  rcases hplay with ⟨w, hrun, hw⟩
  rcases (Option.any_eq_true ..).1 hw with ⟨w', hstep, hlast⟩
  rw [Bool.and_eq_true, decide_eq_true_iff, beq_iff_eq] at hlast
  exact ⟨w, w', hrun, hstep, (waits_end_once rfl rfl hrun hstep hlast.1).2 2 hlast.2⟩

end ServerManager
