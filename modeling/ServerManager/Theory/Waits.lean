import ServerManager.Core.Sample
import ServerManager.Coroutine.Trace
import ServerManager.Theory.Passage

/-!
# Waiting for a Check-in

A handler in `trigger_and_wait_checkin` first sends the trigger and then waits for
its server to check in. To spawn a server takes no time, but a snapshot or a rollback
is a call to the server, and the handler is parked until the response arrives. Only
after that it registers in `sessions_waiting_checkin`.

As long as one handler at a time is in there, the entry is that of the handler that
waits. A CheckIn that arrives before the response finds no entry, and is rejected.

## Main definitions

* `Op.awaitsCheckin`, `awaiting`: Parked in `trigger_and_wait_checkin`.
* `WaitMove`: What a segment does to the entry.
* `Registered`: The entry is that of the handler that waits.
* `Sole`: One handler at a time is in there.
* `RejectsCheckin`: A CheckIn is answered with an error.

## Theorems

* `step_waits`: Every step of the ledger moves the entry like that.
* `registered_step`, `runs_registered`: The invariant along a run.
* `checkin_accepted_iff`: When the CheckIn of a trigger is accepted.
* `checkin_lost`: It arrives before the response to the snapshot.
-/

namespace ServerManager

open Coroutine

/-! ### Parked between the trigger and the end of the wait -/

/-- The handler has sent the trigger, and its wait is not over. -/
def Op.awaitsCheckin : Op → Bool
  | .checkin => true
  | .call c => c.triggers
  | _ => false

/-- The handler waits for the check-in, and for nothing else. -/
def Op.isCheckin : Op → Bool
  | .checkin => true
  | _ => false

/-- Handler `h` is in `trigger_and_wait_checkin`. -/
def awaiting (w : Manager) (h : HandlerId) : Bool := (w.handlers h).any fun p => p.op.awaitsCheckin

/-- Where in `trigger_and_wait_checkin` a handler is parked, if it is parked at all. -/
def spotAt (φ : HandlerId → Option Hold) (h : HandlerId) : Spot := ((φ h).map Hold.spot).getD .plain

theorem spotAt_some {φ : HandlerId → Option Hold} {h : HandlerId} {ph : Hold} (hφ : φ h = some ph) :
    spotAt φ h = ph.spot := by
  unfold spotAt
  rw [hφ]
  rfl

theorem spotAt_none {φ : HandlerId → Option Hold} {h : HandlerId} (hφ : φ h = none) :
    spotAt φ h = .plain := by
  unfold spotAt
  rw [hφ]
  rfl

theorem MachineCall.spot_ne_waiting (c : MachineCall) : c.spot ≠ .waiting := by
  unfold MachineCall.spot
  split
  · exact Spot.noConfusion
  · exact Spot.noConfusion

theorem MachineCall.spot_plain (c : MachineCall) : c.spot = .plain ↔ c.triggers = false := by
  unfold MachineCall.spot
  split
  · next htriggers => exact ⟨fun h => Spot.noConfusion h, fun h => by rw [htriggers] at h; cases h⟩
  · next htriggers => exact ⟨fun _ => Bool.eq_false_iff.2 htriggers, fun _ => rfl⟩

theorem holdAt_checkin {rpc : Rpc} {ph : Hold} {op : Op} (hat : HoldAt rpc ph op) :
    ph.spot = .waiting ↔ op.isCheckin = true := by
  cases hat with
  | advanceCall =>
      exact ⟨fun h => absurd h (MachineCall.spot_ne_waiting _), fun h => Bool.noConfusion h⟩
  | inspectCall =>
      exact ⟨fun h => absurd h (MachineCall.spot_ne_waiting _), fun h => Bool.noConfusion h⟩
  | advanceCheckin | inspectCheckin | startCheckin => exact ⟨fun _ => rfl, fun _ => rfl⟩
  | _ => exact ⟨fun h => Spot.noConfusion h, fun h => Bool.noConfusion h⟩

theorem holdAt_plain {rpc : Rpc} {ph : Hold} {op : Op} (hat : HoldAt rpc ph op) :
    ph.spot = .plain ↔ op.awaitsCheckin = false := by
  cases hat with
  | advanceCall => exact MachineCall.spot_plain _
  | inspectCall => exact MachineCall.spot_plain _
  | calling _ hc | startCall hc => exact ⟨fun _ => hc, fun _ => rfl⟩
  | advanceCheckin | inspectCheckin | startCheckin =>
      exact ⟨fun h => Spot.noConfusion h, fun h => Bool.noConfusion h⟩
  | _ => exact ⟨fun _ => rfl, fun _ => rfl⟩

/-- Only a handler that triggers check-ins is parked in between. -/
theorem holdAt_triggers {rpc : Rpc} {ph : Hold} {op : Op} (hat : HoldAt rpc ph op)
    (hspot : ph.spot ≠ .plain) : Triggers rpc = true := by
  cases hat with
  | advanceCall | advanceCheckin | inspectCall | inspectCheckin | startCheckin => rfl
  | _ => exact absurd rfl hspot

/-! ### What a segment does to the entry -/

/-- What a segment does to the check-in entry and the alarms. -/
inductive WaitMove (i : HandlerId) : Rpc → Hold → Ledger → Option Hold → Ledger → Prop
  /-- The entry is erased if the handler waited for it, and not touched otherwise. -/
  | settle {rpc : Rpc} {ph : Hold} {L L' : Ledger} {t : Option Hold}
      (hwaiting : L'.waiting = (L.settle ph.spot).waiting)
      (halarms : L'.alarms = (L.settle ph.spot).alarms)
      (hnot : ∀ ph', t = some ph' → ph'.spot ≠ .waiting ∧ ∀ g, ph' ≠ .checkedIn g) :
      WaitMove i rpc ph L t L'
  /-- The handler registers. -/
  | register {rpc : Rpc} {ph ph' : Hold} {L L' : Ledger} (hspot : ph.spot = .trigger ∨
        (ph = .fresh ∧ L.waiting = none)) (hwaits : ph'.spot = .waiting)
      (hwaiting : L'.waiting = some ⟨i, L.alarms.length, none⟩)
      (halarms : L'.alarms = (L.register i).alarms) : WaitMove i rpc ph L (some ph') L'
  /-- A CheckIn is accepted. -/
  | accept {address : String} {L : Ledger} {cctx : CheckinContext} (hsession : L.session ≠ none)
      (hwaiting : L.waiting = some cctx) :
      WaitMove i (.checkIn address) .fresh L (some (.checkedIn cctx.coroutine)) (L.cancel.mark true)
  /-- The deadline expires. -/
  | expire {alarm : Nat} {L : Ledger} {cctx : CheckinContext} (hok : L.ok = true)
      (hwaiting : L.waiting = some cctx) :
      WaitMove i (.checkinDeadline alarm) .fresh L (some (.resuming cctx.coroutine)) (L.mark false)

section Moves

variable {φ φ' : HandlerId → Option Hold} {L L' : Ledger} {i : HandlerId} {rpc : Rpc} {ph : Hold}
  {t : Option Hold}

theorem over_settles {P : Hold → Prop} (hidle : P .idle) (ht : Over t) : ∀ ph', t = some ph' → P ph' := by
  rintro ph' rfl
  rcases ht with ht | ht
  · cases ht
  · cases ht
    exact hidle

theorem step_waits (hstep : LedgerStep i rpc ph L t L') : WaitMove i rpc ph L t L' := by
  have hidle : Hold.idle.spot ≠ .waiting ∧ ∀ g, Hold.idle ≠ .checkedIn g :=
    ⟨Spot.noConfusion, fun _ => Hold.noConfusion⟩
  have hplain : ∀ {ph' : Hold}, ph'.spot ≠ .waiting → (∀ g, ph' ≠ .checkedIn g) →
      ∀ ph'', some ph' = some ph'' → ph''.spot ≠ .waiting ∧ ∀ g, ph'' ≠ .checkedIn g := by
    intro ph' hspot hne ph'' heq
    cases heq
    exact ⟨hspot, hne⟩
  have hover : ∀ ph' : Hold, none = some ph' → ph'.spot ≠ .waiting ∧ ∀ g, ph' ≠ .checkedIn g :=
    fun _ h => by cases h
  cases hstep with
  | rest ht => exact .settle rfl rfl (over_settles hidle ht)
  | idle | resumed => exact .settle rfl rfl hover
  | ended | started => exact .settle rfl rfl hover
  | enter _ _ hspot => exact .settle rfl rfl (hplain hspot fun _ => Hold.noConfusion)
  | work _ _ _ hspot => exact .settle rfl rfl (hplain hspot fun _ => Hold.noConfusion)
  | register => exact .register (Or.inl rfl) rfl rfl rfl
  | leave _ _ ht => exact .settle rfl rfl (over_settles hidle ht)
  | install _ hw => exact .register (Or.inr ⟨rfl, hw⟩) rfl rfl rfl
  | abort | refuse => exact .settle rfl rfl (hplain hidle.1 hidle.2)
  | check => exact .settle rfl rfl (hplain Spot.noConfusion fun _ => Hold.noConfusion)
  | fail => exact .settle rfl rfl (hplain hidle.1 hidle.2)
  | shutdown | erase => exact .settle rfl rfl (hplain Spot.noConfusion fun _ => Hold.noConfusion)
  | checkIn hs hw => exact .accept hs hw
  | checkedIn => exact .settle rfl rfl (hplain Spot.noConfusion fun _ => Hold.noConfusion)
  | deadline hok hw => exact .expire hok hw

/-! ### The entry is that of the handler that waits -/

/-- One handler at a time is between its trigger and the end of its wait, and the
    entry is there if and only if it waits. -/
structure Registered (φ : HandlerId → Option Hold) (L : Ledger) : Prop where
  waiter : ∀ h, spotAt φ h = .waiting ↔ L.waiting.map CheckinContext.coroutine = some h
  sole : ∀ h k, spotAt φ h ≠ .plain → spotAt φ k ≠ .plain → h = k

theorem Registered.congr (hI : Registered φ L)
    (hL : L'.waiting.map CheckinContext.coroutine = L.waiting.map CheckinContext.coroutine) :
    Registered φ L' :=
  ⟨fun h => by rw [hL]; exact hI.waiter h, hI.sole⟩

/-- Nobody is registered while a handler is in its trigger. -/
theorem Registered.unregistered (hI : Registered φ L) {h : HandlerId} (hspot : spotAt φ h = .trigger) :
    L.waiting = none := by
  by_contra hsome
  rcases Option.ne_none_iff_exists'.1 hsome with ⟨cctx, hw⟩
  have hwaits : spotAt φ cctx.coroutine = .waiting := (hI.waiter _).2 (by rw [hw]; rfl)
  have hsame : h = cctx.coroutine :=
    hI.sole h _ (by rw [hspot]; exact Spot.noConfusion) (by rw [hwaits]; exact Spot.noConfusion)
  rw [hsame, hwaits] at hspot
  cases hspot

theorem mark_coroutine (L : Ledger) (status : Bool) :
    (L.mark status).waiting.map CheckinContext.coroutine = L.waiting.map CheckinContext.coroutine := by
  unfold Ledger.mark
  rw [Option.map_map]
  rfl

theorem spot_before (hph : (ph = .fresh ∧ φ i = none) ∨ φ i = some ph) : spotAt φ i = ph.spot := by
  rcases hph with ⟨rfl, hφ⟩ | hφ
  · exact spotAt_none hφ
  · exact spotAt_some hφ

theorem spot_others {k : HandlerId}
    (hk : φ' k = φ k ∨ (φ' k = none ∧ ∃ g, φ k = some (.checkedIn g))) : spotAt φ' k = spotAt φ k := by
  rcases hk with hsame | ⟨hnone, g, hg⟩
  · unfold spotAt
    rw [hsame]
  · rw [spotAt_none hnone, spotAt_some hg]
    rfl

/-- The invariant after a step, after which still one handler is in between. -/
theorem registered_step (hI : Registered φ L) (hmove : WaitMove i rpc ph L t L')
    (hph : (ph = .fresh ∧ φ i = none) ∨ φ i = some ph) (hafter : φ' i = t)
    (hothers : ∀ k, k ≠ i → φ' k = φ k ∨ (φ' k = none ∧ ∃ g, φ k = some (.checkedIn g)))
    (hsole : ∀ h k, spotAt φ' h ≠ .plain → spotAt φ' k ≠ .plain → h = k) : Registered φ' L' := by
  have hi : spotAt φ i = ph.spot := spot_before hph
  -- a handler other than `i` waits as before
  have hsame : ∀ k, k ≠ i → L'.waiting.map CheckinContext.coroutine =
      L.waiting.map CheckinContext.coroutine →
        (spotAt φ' k = .waiting ↔ L'.waiting.map CheckinContext.coroutine = some k) := by
    intro k hk hL
    rw [spot_others (hothers k hk), hL]
    exact hI.waiter k
  have hquiet : ph.spot ≠ .waiting → spotAt φ' i ≠ .waiting →
      L'.waiting.map CheckinContext.coroutine = L.waiting.map CheckinContext.coroutine →
        Registered φ' L' := by
    intro hspot hspot' hL
    refine ⟨fun k => ?_, hsole⟩
    by_cases hk : k = i
    · subst hk
      refine iff_of_false hspot' fun hw => hspot ?_
      rw [← hi]
      exact (hI.waiter k).2 (hL ▸ hw)
    · exact hsame k hk hL
  cases hmove with
  | settle hwaiting halarms hnot =>
      have hspot' : spotAt φ' i ≠ .waiting := by
        cases ht : t with
        | none => rw [spotAt_none (hafter.trans ht)]; exact Spot.noConfusion
        | some ph' => rw [spotAt_some (hafter.trans ht)]; exact (hnot ph' ht).1
      by_cases hspot : ph.spot = .waiting
      · have hnone : L'.waiting = none := by
          rw [hwaiting, hspot]
          rfl
        refine ⟨fun k => ?_, hsole⟩
        rw [hnone]
        refine iff_of_false (fun hk => ?_) fun hk => by cases hk
        by_cases hki : k = i
        · exact hspot' (hki ▸ hk)
        · rw [spot_others (hothers k hki)] at hk
          refine hki (hI.sole k i ?_ ?_)
          · rw [hk]
            exact Spot.noConfusion
          · rw [hi, hspot]
            exact Spot.noConfusion
      · refine hquiet hspot hspot' ?_
        rw [hwaiting]
        cases hs : ph.spot with
        | waiting => exact absurd hs hspot
        | plain => rfl
        | trigger => rfl
  | register hspot hwaits hwaiting halarms =>
      have hi' : spotAt φ' i = .waiting := (spotAt_some hafter).trans hwaits
      refine ⟨fun k => ?_, hsole⟩
      rw [hwaiting]
      refine ⟨fun hk => ?_, fun hk => ?_⟩
      · rw [hsole k i (by rw [hk]; exact Spot.noConfusion) (by rw [hi']; exact Spot.noConfusion)]
        rfl
      · cases hk
        exact hi'
  | accept hsession hwaiting =>
      refine hquiet Spot.noConfusion ?_ (mark_coroutine L.cancel true)
      rw [spotAt_some hafter]
      exact Spot.noConfusion
  | expire hok hwaiting =>
      refine hquiet Spot.noConfusion ?_ (mark_coroutine L false)
      rw [spotAt_some hafter]
      exact Spot.noConfusion

end Moves

/-! ### Runs -/

section Runs

variable [Keccak] {w w' : Manager} {φ φ' : HandlerId → Option Hold} {e : Event} {i : HandlerId}
  {rpc : Rpc} {ph : Hold} {L : Ledger} {t : Option Hold} {hctx : HandlerContext}

omit [Keccak] in
theorem awaiting_iff (ha : ledgerProtocol.Abides w φ) (h : HandlerId) :
    awaiting w h = true ↔ spotAt φ h ≠ .plain := by
  unfold awaiting
  cases hp : w.handlers h with
  | none =>
      rw [spotAt_none (ha.absent hp)]
      exact ⟨fun h => Bool.noConfusion h, fun h => absurd rfl h⟩
  | some p =>
      rcases ha.phase hp with ⟨ph, hφ, hat, -⟩
      rw [spotAt_some hφ, Option.any_some, Ne, holdAt_plain hat, Bool.not_eq_false]

omit [Keccak] in
theorem isCheckin_iff (ha : ledgerProtocol.Abides w φ) {h : HandlerId}
    {p : Suspended handlerSignature Rpc} (hp : w.handlers h = some p) :
    p.op.isCheckin = true ↔ spotAt φ h = .waiting := by
  rcases ha.phase hp with ⟨ph, hφ, hat, -⟩
  rw [spotAt_some hφ]
  exact (holdAt_checkin hat).symm

/-- A handler that begins to run finds the entry of the same handler. -/
theorem Entry.waiting (hentry : Entry w φ e i rpc ph L) :
    L.waiting.map CheckinContext.coroutine =
      w.shared.waitingCheckin.map CheckinContext.coroutine := by
  have honset : ∀ {h rpc ph L}, Onset w φ e h rpc ph L →
      L.waiting.map CheckinContext.coroutine =
        w.shared.waitingCheckin.map CheckinContext.coroutine := by
    intro h rpc ph L hon
    cases hon <;> rfl
  cases hentry with
  | onset hon => exact honset hon
  | checkedIn hon => exact honset hon
  | expired hon => exact (mark_coroutine _ false).trans (honset hon)

/-- One handler of the session at a time is in `trigger_and_wait_checkin`. -/
def Sole (w : Manager) : Prop :=
  ∀ h < w.next, ∀ k < w.next, awaiting w h = true → awaiting w k = true → h = k

instance (w : Manager) : Decidable (Sole w) := by
  unfold Sole
  infer_instance

omit [Keccak] in
theorem Sole.spots (hsole : Sole w) (ha : ledgerProtocol.Abides w φ) (h k : HandlerId)
    (hh : spotAt φ h ≠ .plain) (hk : spotAt φ k ≠ .plain) : h = k := by
  have hlt : ∀ j, spotAt φ j ≠ .plain → j < w.next := by
    intro j hj
    by_contra hge
    exact hj (spotAt_none (ha.absent (ha.unused j (Nat.le_of_not_lt hge))))
  exact hsole h (hlt h hh) k (hlt k hk) ((awaiting_iff ha h).2 hh) ((awaiting_iff ha k).2 hk)

theorem passage_registered (hI : Registered φ (Ledger.of w.shared))
    (hpass : Passage w φ e i rpc ph L t φ' (Ledger.of w'.shared))
    (hsole : ∀ h k, spotAt φ' h ≠ .plain → spotAt φ' k ≠ .plain → h = k) :
    Registered φ' (Ledger.of w'.shared) := by
  refine registered_step (hI.congr hpass.entry.waiting) (step_waits hpass.step) ?_ hpass.after
    hpass.others hsole
  rcases hpass.entry.parked with ⟨hfresh, hφ, -⟩ | ⟨hφ, -⟩
  · exact Or.inl ⟨hfresh, hφ⟩
  · exact Or.inr hφ

omit [Keccak] in
theorem registered_idle (hnone : hctx.waitingCheckin = none) : Registered (fun _ => none) (Ledger.of hctx) := by
  refine ⟨fun h => iff_of_false Spot.noConfusion ?_, fun h k hh => absurd rfl hh⟩
  show hctx.waitingCheckin.map CheckinContext.coroutine ≠ some h
  rw [hnone]
  exact fun h => by cases h

theorem runs_registered (hnone : hctx.waitingCheckin = none)
    (hrun : Runs step (fun _ _ w' => Sole w') (idle hctx) w) :
    w.halted = none → Sound Registered w :=
  runs_sound hrun (sound_idle (registered_idle hnone)) (fun _ hI => hI.congr rfl)
    fun hsole _ _ ha' hI hpass => passage_registered hI hpass (hsole.spots ha')

/-! ### Rejected check-ins -/

/-- The error a CheckIn is rejected with. -/
def wrongSessionId (id : String) : Status :=
  ⟨.invalidArgument, "check-in with wrong session id " ++ id⟩

/-- A CheckIn that arrives is answered with that error. -/
def RejectsCheckin (w : Manager) (address peer : String) (fuel : Nat) (env : Environment) : Prop :=
  ∃ w', step w (.arrive (.checkIn address) peer fuel env) = some w' ∧
    w'.shared.sent = w.shared.sent ++ [(.checkIn address, .finishWithError (wrongSessionId w.shared.id))]

omit [Keccak] in
/-- The segment of a CheckIn that finds no entry. -/
theorem seg_checkin_none {address : String} {s : HandlerContext} (hok : s.ok = true)
    (hnone : s.waitingCheckin = none) :
    (newCheckinHandler address).seg s = (.parked (.finishWithError (wrongSessionId s.id)) .pure, { s with
      sent := s.sent ++ [(.checkIn address, .finishWithError (wrongSessionId s.id))] }) := by
  cases s
  dsimp only at hok hnone
  subst hok hnone
  rfl

omit [Keccak] in
/-- A CheckIn that is not ok ends at once. -/
theorem seg_checkin_ignored {address : String} {s : HandlerContext} (hok : s.ok = false) :
    (newCheckinHandler address).seg s = (.done (), s) := by
  show (if s.ok then _ else _ : Handler Unit).seg s = _
  rw [hok]
  rfl

omit [Keccak] in
/-- And of one that finds an entry: whatever its answer is, it is another one. -/
theorem seg_checkin_some {address : String} {s : HandlerContext} {cctx : CheckinContext}
    (hok : s.ok = true) (hsome : s.waitingCheckin = some cctx) :
    ∃ op k s' answer, (newCheckinHandler address).seg s = (.parked op k, s') ∧ op.target = none ∧
      s'.sent = s.sent ++ [(.checkIn address, answer)] ∧
        answer ≠ .finishWithError (wrongSessionId s.id) := by
  cases hsession : s.session with
  | none =>
      cases s
      dsimp only at hok hsome hsession
      subst hok hsome hsession
      refine ⟨_, _, _, .finishWithError _, rfl, rfl, rfl, fun h => ?_⟩
      simp only [Answer.finishWithError.injEq, wrongSessionId, Status.mk.injEq, true_and] at h
      have hlist := congrArg String.toList h
      simp at hlist
  | some entry =>
      cases s
      dsimp only at hok hsome hsession
      subst hok hsome hsession
      exact ⟨_, _, _, .finish .void, rfl, rfl, rfl, fun h => by cases h⟩

/-- A CheckIn is rejected if and only if it finds no entry. -/
theorem rejectsCheckin_iff {env : Environment} (hlive : w.halted = none) (hok : env.ok = true)
    (address peer : String) (fuel : Nat) :
    RejectsCheckin w address peer fuel env ↔ w.shared.waitingCheckin = none := by
  unfold RejectsCheckin
  rw [step_arrive hlive (fun _ => Rpc.noConfusion) peer fuel env]
  show (∃ w', World.advance { prepare w env with next := w.next + 1 } w.next (Rpc.checkIn address)
    (newCheckinHandler address) = some w' ∧ _) ↔ _
  cases hwait : w.shared.waitingCheckin with
  | none =>
      have hseg : (newCheckinHandler address).seg (env.apply w.shared) = _ :=
        seg_checkin_none hok hwait
      rw [World.advance_plain hseg fun op k hparked => by cases hparked; rfl]
      exact iff_of_true ⟨_, rfl, rfl⟩ rfl
  | some cctx =>
      have hfound : (env.apply w.shared).waitingCheckin = some cctx := hwait
      rcases @seg_checkin_some _ _ _ hok hfound with
        ⟨op, k, s', answer, hseg, htarget, hsent, hother⟩
      rw [World.advance_plain hseg fun op k hparked => by cases hparked; exact htarget]
      refine iff_of_false ?_ fun h => by cases h
      rintro ⟨w', hw', hrejected⟩
      cases hw'
      have hsame := List.append_cancel_left (hsent.symm.trans hrejected)
      cases hsame
      exact hother rfl

/-- As long as one handler at a time is in `trigger_and_wait_checkin`, a CheckIn is
    accepted there if and only if the response to the trigger has arrived, and then
    the handler has registered. StartSession does so in the segment in which it
    spawns the server. -/
theorem checkin_accepted_iff (hnone : hctx.waitingCheckin = none)
    (hrun : Runs step (fun _ _ w' => Sole w') (idle hctx) w) (hlive : w.halted = none)
    {h : HandlerId} {p : Suspended handlerSignature Rpc} (hp : w.handlers h = some p)
    (hawaits : p.op.awaitsCheckin = true) {env : Environment} (hok : env.ok = true)
    (address peer : String) (fuel : Nat) :
    (¬ RejectsCheckin w address peer fuel env ↔ p.op.isCheckin = true) ∧
      ∀ request, p.tag = .startSession request → p.op.isCheckin = true := by
  rcases runs_registered hnone hrun hlive with ⟨φ, ha, hI⟩
  rcases ha.phase hp with ⟨ph, hφ, hat, -⟩
  refine ⟨?_, fun request htag => ?_⟩
  · rw [rejectsCheckin_iff hlive hok, isCheckin_iff ha hp]
    constructor
    · intro hsome
      have hspot : spotAt φ h ≠ .plain := by
        rw [spotAt_some hφ, Ne, holdAt_plain hat, hawaits]
        exact Bool.noConfusion
      by_contra hne
      have htrigger : spotAt φ h = .trigger := by
        cases hs : spotAt φ h with
        | plain => exact absurd hs hspot
        | trigger => rfl
        | waiting => exact absurd hs hne
      exact hsome (hI.unregistered htrigger)
    · intro hwaits hnobody
      have hentry := (hI.waiter h).1 hwaits
      have hgone : (Ledger.of w.shared).waiting = none := hnobody
      rw [hgone] at hentry
      cases hentry
  · generalize p.op = op at hat hawaits ⊢
    rw [htag] at hat
    cases hat with
    | startCall hc =>
        rw [Op.awaitsCheckin, hc] at hawaits
        cases hawaits
    | calling _ hc =>
        rw [Op.awaitsCheckin, hc] at hawaits
        cases hawaits
    | startCheckin => rfl
    | _ => cases hawaits

end Runs

/-! ### On the sample -/

attribute [local instance] keccak256

/-- The handler that takes a snapshot, and the one after the response to it. -/
def snapshotEvents : List Event :=
  startEvents ++ [.request (.advanceState (sampleRequest 0)), .answered 2]

/-- The server checks in before the response to the snapshot arrives. -/
theorem checkin_lost : ∃ w p, Runs step (fun _ _ w' => Sole w') (idle emptyContext) w ∧
    w.handlers 2 = some p ∧ p.op.awaitsCheckin = true ∧
      RejectsCheckin w "localhost:5002" "client" 8 calm := by
  have hplay : ∃ w, Runs step (fun _ _ w' => Sole w') (idle emptyContext) w ∧
      (w.halted.isNone && (awaiting w 2 && w.shared.waitingCheckin.isNone)) = true :=
    exists_run (fun _ _ w' => decide (Sole w')) snapshotEvents (fun _ _ _ h => of_decide_eq_true h)
      (by decide +kernel)
  rcases hplay with ⟨w, hrun, hw⟩
  simp only [Bool.and_eq_true, Option.isNone_iff_eq_none] at hw
  rcases (Option.any_eq_true ..).1 hw.2.1 with ⟨p, hp, hawaits⟩
  exact ⟨w, p, hrun, hp, hawaits,
    (rejectsCheckin_iff hw.1 rfl "localhost:5002" "client" 8).2 hw.2.2⟩

/-- It checks in after that. -/
theorem checkin_accepted_sample : ∃ w, Runs step (fun _ _ w' => Sole w') (idle emptyContext) w ∧
    ¬ RejectsCheckin w "localhost:5002" "client" 8 calm := by
  have hplay : ∃ w, Runs step (fun _ _ w' => Sole w') (idle emptyContext) w ∧
      (w.halted.isNone && (w.handlers 2).any fun p => p.op.isCheckin) = true :=
    exists_run (fun _ _ w' => decide (Sole w')) (snapshotEvents ++ [.answered 2])
      (fun _ _ _ h => of_decide_eq_true h) (by decide +kernel)
  rcases hplay with ⟨w, hrun, hw⟩
  rw [Bool.and_eq_true, Option.isNone_iff_eq_none] at hw
  rcases (Option.any_eq_true ..).1 hw.2 with ⟨p, hp, hcheckin⟩
  have hawaits : p.op.awaitsCheckin = true := by
    cases hop : p.op with
    | checkin => rfl
    | _ => rw [hop] at hcheckin; cases hcheckin
  exact ⟨w, hrun, (checkin_accepted_iff rfl hrun hw.1 hp hawaits rfl "localhost:5002" "client" 8).1.2
    hcheckin⟩

end ServerManager
