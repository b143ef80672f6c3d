import ServerManager.Coroutine.Family
import ServerManager.Theory.Picks
import ServerManager.Theory.Turns

/-!
# Handlers Finish Under the Dispatch Loop

The loop in `main` deletes a handler that is over after it has resumed it. A
handler that a CheckIn or a deadline resumes on the spot is not looked at by the
loop, so it must not finish there. And nothing may be left behind that resumes a
handler that is gone: no completion, and no entry of the completion queue.

The manager keeps to that in every run whose steps are orderly. A step is not if
AdvanceState is resumed by a check-in that failed, or after which the input cannot
be recorded, while no query waits: then it taints the session and is over, where
only a query would have made it wait once more. A step is not, either, if a check-in
resumes a handler that does not wait for it, or if AdvanceState works on inputs while
a query has the name of a handler that does not wait.

## Main definitions

* `Orderly`: The condition on a step.
* `Disciplined`: What a step must keep.
* `Punctual`: The invariant.

## Theorems

* `checkin_ends`: Who can be over after a check-in.
* `nested_punctual`: A handler that is resumed on the spot is parked again.
* `step_disciplined`: An orderly step keeps the discipline, and the invariant.
-/

namespace ServerManager

open Coroutine

/-! ### The condition and the property -/

/-- AdvanceState works on inputs when it is resumed. At its acknowledgement it does
    if no other input waits, and it stumbles if the session is not locked. -/
def Working (session : SessionType) (request : AdvanceStateRequest) : Op → Prop
  | .call _ | .checkin | .handOff => True
  | .finish _ => session.sessionLock = false ∨
      ∃ epoch, session.epochs.lookup request.activeEpochIndex = some epoch ∧
        epoch.pendingInputs.length = 1
  | _ => False

section Conditions

variable [Keccak]

/-- AdvanceState can go on after the check-in: it did not fail, and the epoch takes
    another input. -/
structure GoesOn (w : Manager) (e : Event) (request : AdvanceStateRequest) : Prop where
  inTime : ∀ a env, e ≠ .alarm a env
  accepted : ¬ CheckinFailed w.shared
  room : ∀ ref session epoch, w.shared.session = some (ref, session) →
    session.epochs.lookup request.activeEpochIndex = some epoch → epoch.TakesLeaf

/-- A query waits in the active epoch of the session. -/
def QueryWaits (w : Manager) : Prop :=
  ∃ ref session epoch, w.shared.session = some (ref, session) ∧
    session.epochs.lookup session.activeEpochIndex = some epoch ∧ epoch.pendingQuery.isSome = true

/-- The condition on a step. -/
structure Orderly (w : Manager) (e : Event) : Prop where
  /-- Whoever is resumed on the spot waits for a check-in. -/
  awaited : ∀ g, directTarget w e = some g → ∃ p, w.handlers g = some p ∧ p.op = .checkin
  /-- AdvanceState is resumed on the spot if it can go on, or can let a query in. -/
  goesOn : ∀ g p request, directTarget w e = some g → w.handlers g = some p →
    p.tag = .advanceState request → QueryWaits w ∨ GoesOn w e request
  /-- AdvanceState works on inputs while the coroutine in the query is its own, or
      that of an InspectState that waits. -/
  found : ∀ i p request ref session index g, runsIn w e i = true → w.handlers i = some p →
    p.tag = .advanceState request → w.shared.session = some (ref, session) →
      Working session request p.op →
      index = request.activeEpochIndex ∨ index = session.activeEpochIndex →
        session.callers index = some (some g) →
          g = i ∨ ∃ pg, w.handlers g = some pg ∧ pg.op = .awaitInputs
  /-- No epoch has used its numbers up. -/
  numbers : ∀ ref session index epoch, w.shared.session = some (ref, session) →
    session.epochs.lookup index = some epoch → epoch.processedInputs.length < 2 ^ 32
  /-- The number of the active epoch did not reach its end while FinishEpoch stored
      the machine. -/
  stores : ∀ h p request c ref session, e.runner w = some h → w.handlers h = some p →
    p.tag = .finishEpoch request → p.op = .call c → w.shared.session = some (ref, session) →
      session.activeEpochIndex ≠ 0xFFFFFFFFFFFFFFFF

/-- What a step must keep, as long as the process does not end. -/
structure Disciplined (w : Manager) (e : Event) (w' : Manager) : Prop where
  /-- Whoever is over was resumed by the dispatch loop. -/
  loop : ∀ h, runsIn w e h = true → w'.halted = none → w'.handlers h = none →
    e.runner w = some h ∧ directTarget w e ≠ some h
  /-- And nothing is left that would resume it. -/
  untagged : ∀ h, w'.halted = none → h < w'.next → w'.handlers h = none →
    h ∉ w'.stale ∧ some h ∉ w'.shared.completionQueue
  /-- It does not run again. -/
  once : ∀ h, h < w.next → w.handlers h = none → runsIn w e h = false

/-- The number AdvanceState works on is in bounds, or the next one of an epoch. -/
def Counted (φ : HandlerId → Option Post) (s : HandlerContext) : Prop :=
  ∀ D ref k waiting, φ D = some (.held ref (.advancing k waiting)) →
    k < 2 ^ 32 ∨ ∃ index, Numbers ref index k s

/-- The invariant: every handler is parked where the protocol says, nobody is going to
    be woken up twice, and no completion comes for a handler that went on without. -/
def Punctual (w : Manager) : Prop :=
  ∃ φ, callbackProtocol.Abides w φ ∧ Scheduled φ (Callbacks.of w.shared) w.next ∧
    Counted φ w.shared ∧ w.stale = []

end Conditions

/-! ### Where handlers are parked -/

theorem postAt_target {rpc : Rpc} {ph : Post} {op : Op} {g : HandlerId} (hat : PostAt rpc ph op)
    (htarget : Op.target op = some g) : ph = .resuming g := by
  cases hat with
  | resuming => exact congrArg _ (Option.some.inj htarget)
  | _ => cases htarget

theorem postAt_ne_fresh {rpc : Rpc} {ph : Post} {op : Op} (hat : PostAt rpc ph op) :
    ph ≠ .fresh := by
  cases hat <;> exact Post.noConfusion

/-- Nothing completes for a handler that waits to be woken up. -/
theorem postAt_parked {rpc : Rpc} {ph : Post} {op : Op} (hat : PostAt rpc ph op) :
    ph.parked = true → op.completes = false := by
  cases hat <;> intro h <;> first | rfl | cases h

theorem postAt_checkin {rpc : Rpc} {ph : Post} (hat : PostAt rpc ph .checkin) :
    ph.parked = false := by
  cases hat <;> rfl

theorem postAt_awaitInputs {rpc : Rpc} {ph : Post} (hat : PostAt rpc ph .awaitInputs) :
    ∃ ref k, ph = .held ref (.queued k) := by
  cases hat
  exact ⟨_, _, rfl⟩

theorem postAt_storing {request : FinishEpochRequest} {ref : Nat} {op : Op}
    (hat : PostAt (.finishEpoch request) (.held ref .storing) op) : ∃ c, op = .call c := by
  cases hat
  exact ⟨_, rfl⟩

/-- The phase of AdvanceState says no more than the operation it waits for. -/
theorem postAt_working {request : AdvanceStateRequest} {ref : Nat} {session : SessionType}
    {place : Place} {op : Op} {s : HandlerContext}
    (hat : PostAt (.advanceState request) (.held ref place) op) (hplain : place.plain)
    (hs : s.session = some (ref, session)) (hworks : Works request ref (.held ref place) s) :
    Working session request op := by
  cases hat with
  | calling | advanceCall | advanceCheckin | handedOff => trivial
  | answered => exact hworks.first rfl session hs

/-! ### Numbers -/

section Numbers

variable {φ : HandlerId → Option Post} {s : HandlerContext}

/-- The numbers AdvanceState works on are in bounds. -/
def Bounded (φ : HandlerId → Option Post) : Prop :=
  ∀ D ref k waiting, φ D = some (.held ref (.advancing k waiting)) → k < 2 ^ 32

theorem Counted.bounded (hc : Counted φ s)
    (hnumbers : ∀ ref session index epoch, s.session = some (ref, session) →
      session.epochs.lookup index = some epoch → epoch.processedInputs.length < 2 ^ 32) :
    Bounded φ := by
  intro D ref k waiting hD
  rcases hc D ref k waiting hD with hk | ⟨index, session, epoch, hs, he, rfl⟩
  · exact hk
  · exact hnumbers ref session index epoch hs he

theorem Bounded.out (hb : Bounded φ) (i : HandlerId) : Bounded (Function.update φ i none) :=
  fun D ref k waiting hD => hb D ref k waiting (out_iff.1 hD).2

theorem Bounded.counted (hb : Bounded φ) : Counted φ s :=
  fun D ref k waiting hD => Or.inl (hb D ref k waiting hD)

/-- Where AdvanceState gets its number from. -/
theorem step_advancing [Keccak] {h : HandlerId} {rpc : Rpc} {ph : Post} {ref k : Nat}
    {waiting : Bool} {s' : HandlerContext}
    (hstep : PostStep h rpc ph s (some (.held ref (.advancing k waiting))) s') :
    (∃ waited, ph = .held ref (.advancing k waited)) ∨ ∃ index, Numbers ref index k s' := by
  cases hstep with
  | rest ht => rcases ht with ht | ht <;> cases ht
  | work _ _ hplace => rcases hplace with h | h <;> cases h
  | advance _ _ hk => exact hk.imp_right fun h => ⟨_, h⟩
  | leave _ _ ht => rcases ht with ht | ht <;> cases ht
  | handOver _ _ _ _ _ _ hph' => rcases hph' with h | h <;> cases h

theorem counted_step [Keccak] {i : HandlerId} {rpc : Rpc} {ph : Post} {t : Option Post}
    {s' : HandlerContext} (hb : Bounded φ)
    (hph : ∀ ref k waiting, ph = .held ref (.advancing k waiting) → k < 2 ^ 32)
    (hstep : PostStep i rpc ph s t s') : Counted (Function.update φ i t) s' := by
  intro D ref k waiting hD
  by_cases hDi : D = i
  · subst hDi
    rw [Function.update_self] at hD
    subst hD
    rcases step_advancing hstep with ⟨waited, h⟩ | hnumber
    · exact Or.inl (hph ref k waited h)
    · exact Or.inr hnumber
  · rw [Function.update_of_ne hDi] at hD
    exact Or.inl (hb D ref k waiting hD)

end Numbers

/-! ### After a check-in -/

section Steps

variable [Keccak]

/-- Who can be over after a check-in: AdvanceState that cannot go on, where no query
    waits. -/
theorem checkin_ends {g : HandlerId} {rpc : Rpc} {ph : Post} {s s' : HandlerContext}
    (hat : PostAt rpc ph .checkin) (hstep : PostStep g rpc ph s none s') :
    ∃ request ref k, rpc = .advanceState request ∧ ph = .held ref (.advancing k true) ∧
      Stranded ref request.activeEpochIndex k s := by
  cases hat with
  | @advanceCheckin request ref k =>
      refine ⟨request, ref, k, rfl, rfl, ?_⟩
      cases hstep with
      | leave hin hT ht hend =>
          cases hin
          exact hend request k rfl rfl rfl
  | inspectCheckin =>
      cases hstep with
      | leave hin =>
          cases hin with
          | held hplain => cases hplain
  | startCheckin =>
      cases hstep with
      | leave hin => cases hin

/-- It is not over if it can go on, or if a query waits. -/
theorem not_stranded {w : Manager} {e : Event} {request : AdvanceStateRequest} {ref k : Nat}
    {s : HandlerContext} (hgo : QueryWaits w ∨ GoesOn w e request)
    (hs : s.session = w.shared.session)
    (hfailed : CheckinFailed s → CheckinFailed w.shared ∨ ∃ a env, e = .alarm a env)
    (hk : k < 2 ^ 32) : ¬ Stranded ref request.activeEpochIndex k s := by
  rintro ⟨hspoiled, d, hd, -, hnone⟩
  rcases hgo with ⟨ref', session, epoch, hsession, hepoch, hquery⟩ | hgo
  · rw [← hs] at hsession
    rw [table_of hsession] at hd
    cases hd
    have hcaller : session.callers session.activeEpochIndex = epoch.caller := callers_at hepoch
    dsimp only at hnone
    rw [hcaller] at hnone
    unfold EpochType.caller at hnone
    rw [Option.map_eq_none_iff.1 hnone] at hquery
    cases hquery
  · cases hspoiled with
    | failed h =>
        rcases hfailed h with h | ⟨a, env, he⟩
        · exact hgo.accepted h
        · exact hgo.inTime a env he
    | number h => exact absurd hk (Nat.not_lt.2 h)
    | full hsession hepoch hfull => exact hfull (hgo.room _ _ _ (hs ▸ hsession) hepoch)

/-! ### The world an event prepares -/

section Prepared

variable {w w₁ : Manager} {e : Event} {h : HandlerId} {rpc : Rpc} {c : Handler Unit}

theorem Picks.session (hp : Picks w e h rpc w₁ c) : w₁.shared.session = w.shared.session := by
  have hprepared := hp.prepared
  generalize w₁.shared = s at hprepared ⊢
  cases hprepared <;> rfl

theorem Picks.waiting (hp : Picks w e h rpc w₁ c) :
    w₁.shared.waitingCheckin = w.shared.waitingCheckin := by
  have hprepared := hp.prepared
  generalize w₁.shared = s at hprepared ⊢
  cases hprepared <;> rfl

variable {φ φ₀ : HandlerId → Option Post} {ph : Post}

/-- A handler that runs has its name where nobody can wake it up. -/
theorem Picks.running (hp : Picks w e h rpc w₁ c)
    (htake : Takes callbackProtocol w φ h rpc w₁ ph φ₀)
    (hs : Scheduled φ (Callbacks.of w.shared) w.next) :
    Running φ₀ (Callbacks.of w₁.shared) w.next h ph := by
  have hnext := Nat.ne_of_lt (Nat.lt_succ_self w.next)
  rcases htake with ⟨hφ, hnew, hn, rfl, rfl⟩ | ⟨hφ, hn, rfl, p, hh, htag, hat⟩
  · have hrun : Running φ₀ (Callbacks.of w.shared) w.next h .fresh :=
      running_fresh hs hφ (Nat.le_of_eq hnew.symm)
    cases hp with
    | arrived => exact hrun
    | expired => exact hrun
    | completed => exact absurd hn hnext
    | dequeued => exact absurd ((World.markStale_next ..).symm.trans hn) hnext
  · have hfresh := postAt_ne_fresh hat
    cases hp with
    | arrived => exact absurd hn.symm hnext
    | expired => exact absurd hn.symm hnext
    | completed hp hop =>
        rw [hh] at hp
        cases hp
        refine running_completed hs hφ hfresh (Bool.eq_false_iff.2 fun hparked => ?_)
        rw [postAt_parked hat hparked] at hop
        cases hop
    | @dequeued j env _ p' hj hp =>
        have hshared := (markStale_fields (prepare { w with shared := { w.shared with
          completionQueue := w.shared.completionQueue.eraseIdx j } } env) h p'.op).1
        have hrun : Running (Function.update φ h none) (Callbacks.of (prepare { w with
            shared := { w.shared with
              completionQueue := w.shared.completionQueue.eraseIdx j } } env).shared) w.next h ph :=
          running_dequeued hs hφ hfresh hj
        rw [← hshared] at hrun
        exact hrun

/-- A deadline runs in the event of its alarm. -/
theorem Picks.expires {alarm : Nat} (hp : Picks w e h rpc w₁ c) (hn : w₁.next = w.next + 1)
    (hrpc : rpc = .checkinDeadline alarm) : ∃ a env, e = .alarm a env := by
  have hnext := Nat.ne_of_lt (Nat.lt_succ_self w.next)
  cases hp with
  | arrived hne => exact absurd hrpc (hne alarm)
  | expired => exact ⟨_, _, rfl⟩
  | completed => exact absurd hn hnext
  | dequeued => exact absurd ((World.markStale_next ..).symm.trans hn) hnext

/-- The loop resumes no handler whose operation is pending. -/
theorem Picks.stale (hp : Picks w e h rpc w₁ c) (ha : callbackProtocol.Abides w φ)
    (hs : Scheduled φ (Callbacks.of w.shared) w.next) : w₁.stale = w.stale := by
  cases hp with
  | arrived => rfl
  | expired => rfl
  | completed => rfl
  | @dequeued j env _ p hj hp =>
      rcases ha.phase hp with ⟨ph, hφ, hat, -⟩
      rcases hs.parked h (List.mem_of_getElem? hj) with ⟨ph', hφ', hparked⟩
      rw [hφ] at hφ'
      cases hφ'
      have hop := postAt_parked hat hparked
      show (World.markStale _ _ _).stale = _
      unfold World.markStale
      rw [if_neg]
      · rfl
      · intro hcon
        have hcon' : p.op.completes = true := hcon
        rw [hop] at hcon'
        cases hcon'

end Prepared

/-- A handler resumes another: nothing has changed for the one that is resumed. -/
theorem step_resumes {w w₁ : Manager} {e : Event} {h g : HandlerId} {rpc : Rpc}
    {c : Handler Unit} {φ φ₀ : HandlerId → Option Post} {ph : Post} {s : HandlerContext}
    (hpick : Picks w e h rpc w₁ c) (htake : Takes callbackProtocol w φ h rpc w₁ ph φ₀)
    (hstep : PostStep h rpc ph w₁.shared (some (.resuming g)) s) :
    s.session = w.shared.session ∧ Callbacks.of s = Callbacks.of w₁.shared ∧
      (CheckinFailed s → CheckinFailed w.shared ∨ ∃ a env, e = .alarm a env) ∧
      ∀ ref k, φ h ≠ some (.held ref (.queued k)) := by
  have hline : (∀ ref k, ph ≠ .held ref (.queued k)) → ∀ ref k, φ h ≠ some (.held ref (.queued k)) := by
    intro hph ref k hφ
    rcases htake with ⟨hnone, -⟩ | ⟨hsome, -⟩
    · rw [hnone] at hφ
      cases hφ
    · rw [hsome] at hφ
      exact hph ref k (Option.some.inj hφ)
  cases hstep with
  | rest ht => rcases ht with ht | ht <;> cases ht
  | leave _ _ ht => rcases ht with ht | ht <;> cases ht
  | handOver _ _ _ _ _ _ hph' => rcases hph' with h | h <;> cases h
  | resume hend hs hT =>
      refine ⟨hs.trans hpick.session, hT, fun hfailed => ?_, hline ?_⟩
      · rcases hend with ⟨address, rfl, rfl, hwait⟩ | ⟨alarm, rfl, rfl⟩
        · rcases hfailed with ⟨cctx, hcctx, hstatus⟩
          exact Or.inl ⟨cctx, by rw [← hpick.waiting, ← hwait]; exact hcctx, hstatus⟩
        · rcases htake with ⟨-, -, hn, -, -⟩ | ⟨-, -, -, p, -, -, hat⟩
          · exact Or.inr (hpick.expires hn rfl)
          · exact absurd rfl (postAt_ne_fresh hat)
      · rcases hend with ⟨_, -, rfl, -⟩ | ⟨_, -, rfl⟩
        · exact fun _ _ => Post.noConfusion
        · exact fun _ _ => Post.noConfusion

/-- What an orderly step leaves behind, when it leaves a world that goes on. -/
theorem punctual_disciplined {w w' : Manager} {e : Event} (hI : Punctual w')
    (hloop : ∀ h, runsIn w e h = true → w'.handlers h = none →
      e.runner w = some h ∧ directTarget w e ≠ some h)
    (honce : ∀ h, h < w.next → w.handlers h = none → runsIn w e h = false) :
    Disciplined w e w' := by
  rcases hI with ⟨φ, ha, hs, -, hstale⟩
  refine ⟨fun h hran _ hover => hloop h hran hover, fun h _ _ hover => ⟨?_, fun hq => ?_⟩, honce⟩
  · rw [hstale]
    exact List.not_mem_nil
  · rcases hs.parked h hq with ⟨ph, hφ, -⟩
    have hnone := ha.absent hover
    rw [hφ] at hnone
    cases hnone

/-- The handler an event is for is new, or it is parked. -/
theorem runner_parked {w w' : Manager} {e : Event} {φ : HandlerId → Option Post} {h : HandlerId}
    (ha : callbackProtocol.Abides w φ) (hs : Scheduled φ (Callbacks.of w.shared) w.next)
    (hstep : step w e = some w') (hrunner : e.runner w = some h) (hlt : h < w.next) :
    w.handlers h ≠ none := by
  intro hover
  rcases step_picks hstep with ⟨h', rpc, w₁, c, hpick, -⟩ | hidle
  · have heq := hpick.runner.symm.trans hrunner
    cases heq
    cases hpick with
    | arrived => exact Nat.lt_irrefl _ hlt
    | expired => exact Nat.lt_irrefl _ hlt
    | completed hp => rw [hover] at hp; cases hp
    | dequeued hj hp => rw [hover] at hp; cases hp
  · cases hidle with
    | fire => cases hrunner
    | null hj => simp only [Event.runner, hj, Option.join_some] at hrunner; cases hrunner
    | gone hj =>
        simp only [Event.runner, hj, Option.join_some] at hrunner
        cases hrunner
        rcases hs.parked h (List.mem_of_getElem? hj) with ⟨ph, hφ, -⟩
        rw [ha.absent hover] at hφ
        cases hφ
    | stale => cases hrunner

/-- The condition on AdvanceState that works on inputs, in terms of phases. -/
theorem Orderly.places {w : Manager} {e : Event} {φ φ₀ : HandlerId → Option Post} {i : HandlerId}
    {p : Suspended handlerSignature Rpc} {ph : Post} {s : HandlerContext} (ho : Orderly w e)
    (ha : callbackProtocol.Abides w φ) (hran : runsIn w e i = true) (hp : w.handlers i = some p)
    (hat : PostAt p.tag ph p.op) (hs : s.session = w.shared.session)
    (hothers : ∀ g ref k, g ≠ i → φ g = some (.held ref (.queued k)) →
      φ₀ g = some (.held ref (.queued k))) : Found φ₀ i p.tag ph s := by
  intro request d index g htag hd hin hworks hindex hq
  cases hsession : s.session with
  | none =>
      unfold Callbacks.of at hd
      rw [hsession] at hd
      cases hd
  | some entry =>
      rw [table_of hsession] at hd
      cases hd
      have hworking : Working entry.2 request p.op := by
        rw [htag] at hat
        cases hin with
        | fresh => exact absurd rfl hworks.arrived
        | held hplain => exact postAt_working hat hplain hsession hworks
      rcases ho.found i p request entry.1 entry.2 index g hran hp htag (hs.symm.trans hsession)
        hworking hindex hq with rfl | ⟨pg, hpg, hop⟩
      · exact Or.inl rfl
      · by_cases hgi : g = i
        · exact Or.inl hgi
        · rcases ha.phase hpg with ⟨phg, hφg, hatg, -⟩
          rw [hop] at hatg
          rcases postAt_awaitInputs hatg with ⟨ref, k, rfl⟩
          exact Or.inr ⟨ref, k, hothers g ref k hgi hφg⟩

omit [Keccak] in
/-- A handler that has not run yet works on nothing. -/
theorem found_fresh {φ : HandlerId → Option Post} {i : HandlerId} {rpc : Rpc} {s : HandlerContext} :
    Found φ i rpc .fresh s :=
  fun _ _ _ _ _ _ _ hworks => absurd rfl hworks.arrived

theorem Takes.parted {w w₁ : Manager} {φ φ₀ : HandlerId → Option Post} {h : HandlerId} {rpc : Rpc}
    {ph : Post} (ht : Takes callbackProtocol w φ h rpc w₁ ph φ₀)
    (ha : callbackProtocol.Abides w φ) :
    φ₀ h = none ∧ (∀ g, g ≠ h → φ₀ g = φ g) ∧ w.next ≤ w₁.next ∧ h < w₁.next := by
  rcases ht with ⟨hφ, hnew, hn, -, rfl⟩ | ⟨hφ, hn, rfl, p, hp, -, -⟩
  · refine ⟨hφ, fun _ _ => rfl, by omega, ?_⟩
    rw [hn, hnew]
    exact Nat.lt_succ_self _
  · refine ⟨Function.update_self .., fun g hg => Function.update_of_ne hg .., by omega, ?_⟩
    rw [hn]
    by_contra hge
    rw [ha.unused h (Nat.le_of_not_lt hge)] at hp
    cases hp

theorem Takes.bounded {w w₁ : Manager} {φ φ₀ : HandlerId → Option Post} {h : HandlerId} {rpc : Rpc}
    {ph : Post} (ht : Takes callbackProtocol w φ h rpc w₁ ph φ₀)
    (ha : callbackProtocol.Abides w φ) (hb : Bounded φ) : Bounded φ₀ := by
  rcases ht.parted ha with ⟨hnone, hothers, -⟩
  intro D ref k waiting hD
  by_cases hDh : D = h
  · subst hDh
    rw [hnone] at hD
    cases hD
  · exact hb D ref k waiting ((hothers D hDh).symm.trans hD)

/-- No completion is left that nobody waits for. -/
theorem Orderly.stale {w w₁ w' : Manager} {e : Event} {h : HandlerId} {rpc : Rpc}
    {c : Handler Unit} {φ : HandlerId → Option Post} (ho : Orderly w e)
    (hpick : Picks w e h rpc w₁ c) (ha : callbackProtocol.Abides w φ)
    (hs : Scheduled φ (Callbacks.of w.shared) w.next) (hadv : w₁.advance h rpc c = some w') :
    w'.stale = w.stale := by
  refine (advance_stale hadv fun g p htarget hp => ?_).trans (hpick.stale ha hs)
  rcases ho.awaited g (hpick.direct.trans htarget) with ⟨p', hp', hop⟩
  by_cases hgh : g = h
  · subst hgh
    cases hpick with
    | arrived =>
        rw [ha.unused w.next (Nat.le_refl _)] at hp'
        cases hp'
    | expired =>
        rw [ha.unused w.next (Nat.le_refl _)] at hp'
        cases hp'
    | completed => exact absurd hp (by simp [World.put])
    | dequeued => exact absurd hp (by simp [World.put])
  · rw [hpick.handlers hgh, hp'] at hp
    cases hp
    rw [hop]
    rfl

/-- A plain event: the handler it is for runs, and nobody else. -/
theorem plain_punctual {w w₁ w' : Manager} {e : Event} {h : HandlerId} {rpc : Rpc}
    {c : Handler Unit} {φ φ₀ : HandlerId → Option Post} {ph : Post} {t : Option Post}
    (ho : Orderly w e) (hpick : Picks w e h rpc w₁ c)
    (htake : Takes callbackProtocol w φ h rpc w₁ ph φ₀) (ha : callbackProtocol.Abides w φ)
    (hs : Scheduled φ (Callbacks.of w.shared) w.next) (hn : w'.next = w₁.next)
    (hpost : PostStep h rpc ph w₁.shared t w'.shared) :
    Scheduled (Function.update φ₀ h t) (Callbacks.of w'.shared) w'.next := by
  rcases htake.parted ha with ⟨-, hothers, hnext, hlt⟩
  refine scheduled_step (hpick.running htake hs) hpost (hn ▸ hnext) (hn ▸ hlt) ?_ ?_
  · rcases htake with ⟨-, -, -, rfl, -⟩ | ⟨-, -, -, p, hp, rfl, hat⟩
    · exact found_fresh
    · exact ho.places ha (by simp [runsIn, hpick.runner]) hp hat hpick.session
        fun g ref k hg hφ => (hothers g hg).trans hφ
  · rintro ref request d rfl rfl hd
    rcases htake with ⟨-, -, -, hfresh, -⟩ | ⟨-, -, -, p, hp, htag, hat⟩
    · cases hfresh
    · rcases postAt_storing hat with ⟨c, hop⟩
      have hsession := hpick.session
      cases hw₁ : w₁.shared.session with
      | none =>
          unfold Callbacks.of at hd
          rw [hw₁] at hd
          cases hd
      | some entry =>
          rw [table_of hw₁] at hd
          cases hd
          exact ho.stores h p request c entry.1 entry.2 hpick.runner hp htag hop
            (hsession.symm.trans hw₁)

/-- A handler that resumed another is over after that. -/
theorem step_resumed {h g : HandlerId} {rpc : Rpc} {s s' : HandlerContext} {t : Option Post}
    (hstep : PostStep h rpc (.resuming g) s t s') : t = none ∧ s' = s := by
  cases hstep with
  | resumed => exact ⟨rfl, rfl⟩
  | work hin => cases hin
  | advance hin => cases hin
  | leave hin => cases hin
  | handOver hin => cases hin
  | serve hS => cases hS
  | answer hS => cases hS
  | fail hS => cases hS
  | resume hend => rcases hend with ⟨_, _, h, _⟩ | ⟨_, _, h⟩ <;> cases h

/-- An event in which a handler is resumed on the spot: it is parked again, and
    whoever resumed it is over. -/
theorem nested_punctual {w w₁ w' : Manager} {e : Event} {h g : HandlerId} {rpc : Rpc}
    {c : Handler Unit} {φ φ₀ : HandlerId → Option Post} {ph phg : Post} {tg t : Option Post}
    {p : Suspended handlerSignature Rpc} {s₁ s₂ : HandlerContext} (ho : Orderly w e)
    (hpick : Picks w e h rpc w₁ c) (htake : Takes callbackProtocol w φ h rpc w₁ ph φ₀)
    (ha : callbackProtocol.Abides w φ) (hs : Scheduled φ (Callbacks.of w.shared) w.next)
    (hb : Bounded φ) (hn : w'.next = w₁.next)
    (hdirect : directTarget w e = some g) (hg : w₁.handlers g = some p) (hφg : φ₀ g = some phg)
    (hpost : PostStep h rpc ph w₁.shared (some (.resuming g)) s₁)
    (hpostg : PostStep g p.tag phg s₁ tg s₂) (htail : PostStep h rpc (.resuming g) s₂ t w'.shared) :
    tg ≠ none ∧ h ≠ g ∧ Scheduled (Function.update (Function.update φ₀ g tg) h t)
      (Callbacks.of w'.shared) w'.next ∧
        Counted (Function.update (Function.update φ₀ g tg) h t) w'.shared := by
  rcases htake.parted ha with ⟨hφh, hothers, hnext, hlt⟩
  have hgh : g ≠ h := by
    rintro rfl
    rw [hφh] at hφg
    cases hφg
  rcases step_resumes hpick htake hpost with ⟨hsession, hT, hfailed, hline⟩
  rcases step_resumed htail with ⟨rfl, hsame⟩
  -- the handler that is resumed
  have hgw : w.handlers g = some p := (hpick.handlers hgh).symm.trans hg
  have hφgw : φ g = some phg := (hothers g hgh).symm.trans hφg
  have hgn : g < w.next := by
    by_contra hge
    rw [ha.unused g (Nat.le_of_not_lt hge)] at hgw
    cases hgw
  rcases ho.awaited g hdirect with ⟨p', hp', hop⟩
  rw [hgw] at hp'
  cases hp'
  rcases ha.phase hgw with ⟨phg', hφg', hat, -⟩
  rw [hφgw] at hφg'
  cases hφg'
  rw [hop] at hat
  have hends : tg ≠ none := by
    rintro rfl
    rcases checkin_ends hat hpostg with ⟨request, ref, k, htag, rfl, hstranded⟩
    exact not_stranded (ho.goesOn g p request hdirect hgw htag) hsession hfailed
      (hb g ref k true hφgw) hstranded
  have hrun : Running (Function.update φ₀ g none) (Callbacks.of s₁) w.next g phg := by
    rw [hT]
    exact running_completed (hpick.running htake hs).scheduled hφg (postAt_ne_fresh hat)
      (postAt_checkin hat)
  have hsched : Scheduled (Function.update (Function.update φ₀ g none) g tg) (Callbacks.of s₂)
      w'.next := by
    refine scheduled_step hrun hpostg (hn ▸ hnext) (Nat.lt_of_lt_of_le hgn (hn ▸ hnext)) ?_ ?_
    · refine ho.places ha (by simp [runsIn, hdirect]) hgw (hop ▸ hat) hsession fun k ref j hk hφ => ?_
      rw [Function.update_of_ne hk]
      by_cases hkh : k = h
      · subst hkh
        exact absurd hφ (hline ref j)
      · exact (hothers k hkh).trans hφ
    · rintro ref request d htag rfl -
      rw [htag] at hat
      cases hat
  refine ⟨hends, hgh.symm, ?_⟩
  have hφ' : Function.update (Function.update φ₀ g tg) h none =
      Function.update (Function.update φ₀ g none) g tg := by
    have hnone : Function.update φ₀ g tg h = none := by
      rw [Function.update_of_ne hgh.symm]
      exact hφh
    rw [← hnone, Function.update_eq_self, Function.update_idem]
  rw [hφ', hsame]
  exact ⟨hsched, counted_step ((htake.bounded ha hb).out g) (fun ref k waiting hk => hb g ref k waiting (hk ▸ hφgw))
    hpostg⟩

/-- An orderly step keeps the discipline, and the invariant. -/
theorem step_disciplined {w w' : Manager} {e : Event} (hI : Punctual w)
    (hstep : step w e = some w') (ho : Orderly w e) :
    Disciplined w e w' ∧ (w'.halted = none → Punctual w') := by
  rcases hI with ⟨φ, ha, hs, hcounted, hstale⟩
  have hb : Bounded φ := hcounted.bounded ho.numbers
  have hw := step_running hstep
  -- a handler that is over does not run
  have honce : ∀ h, h < w.next → w.handlers h = none → runsIn w e h = false := by
    intro h hlt hover
    by_contra hran
    rw [Bool.not_eq_false, runsIn, Bool.or_eq_true, beq_iff_eq, beq_iff_eq] at hran
    rcases hran with hran | hran
    · exact runner_parked ha hs hstep hran hlt hover
    · rcases ho.awaited h hran with ⟨p, hp, -⟩
      rw [hover] at hp
      cases hp
  have hdone : w'.halted ≠ none → Disciplined w e w' ∧ (w'.halted = none → Punctual w') :=
    fun hx => ⟨⟨fun _ _ h => absurd h hx, fun _ h => absurd h hx, honce⟩, fun h => absurd h hx⟩
  rcases step_picks hstep with ⟨h, rpc, w₁, c, hpick, hadv⟩ | hidle
  · rcases picks_outcome hpick ha hw trivial (fun fuel peer => keeps_posts fuel peer rpc h w₁.shared)
      hadv with ⟨ph, φ₀, htake, hout⟩
    have hstale' : w'.stale = [] := (ho.stale hpick ha hs hadv).trans hstale
    rcases hout with ⟨x, hx, -⟩ | ⟨hhalt, hn, φ', ha', hadvances⟩
    · exact hdone (by rw [hx]; exact Option.some_ne_none _)
    generalize hs' : w'.shared = s' at hadvances
    cases hadvances with
    | @plain t _ hpost hdirect =>
        subst hs'
        have hkept : Punctual w' := by
          refine ⟨_, ha', plain_punctual ho hpick htake ha hs hn hpost,
            counted_step (htake.bounded ha hb) (fun ref k waiting hph => ?_) hpost, hstale'⟩
          subst hph
          rcases htake with ⟨-, -, -, hph, -⟩ | ⟨hφ, -⟩
          · cases hph
          · exact hb h ref k waiting hφ
        refine ⟨punctual_disciplined hkept (fun h' hran _ => ?_) honce, fun _ => hkept⟩
        rw [runsIn, hdirect] at hran
        rw [hdirect]
        exact ⟨by simpa using hran, (Option.some_ne_none _).symm⟩
    | @nested op ph₁ s₁ s₂ _ g p phg tg t hpost hat htarget hdirect hg hφg hpostg htail =>
        subst hs'
        have hresuming : ph₁ = .resuming g := postAt_target hat htarget
        subst hresuming
        rcases nested_punctual ho hpick htake ha hs hb hn hdirect hg hφg hpost hpostg htail with
          ⟨hends, hne, hsched, hcounted'⟩
        have hkept : Punctual w' := ⟨_, ha', hsched, hcounted', hstale'⟩
        refine ⟨punctual_disciplined hkept (fun h' hran hover => ?_) honce, fun _ => hkept⟩
        simp only [runsIn, hpick.runner, hdirect, Bool.or_eq_true, beq_iff_eq,
          Option.some.injEq] at hran
        rw [hpick.runner, hdirect]
        rcases hran with rfl | rfl
        · exact ⟨rfl, fun h => hne (Option.some.inj h).symm⟩
        · -- the handler that was resumed is parked again
          have hnone := ha'.absent hover
          rw [Function.update_of_ne hne.symm, Function.update_self] at hnone
          exact absurd hnone hends
  · cases hidle with
    | @fire a hfire =>
        have hkept : Punctual (setAlarm w a .fired) :=
          ⟨φ, ⟨trivial, ha.follows, ha.unused⟩, hs, hb.counted, hstale⟩
        refine ⟨punctual_disciplined hkept (fun h hran => ?_) honce, fun _ => hkept⟩
        cases hran
    | null hj hw' => exact hdone (by rw [hw']; exact Option.some_ne_none _)
    | gone hj hh hw' => exact hdone (by rw [hw']; exact Option.some_ne_none _)
    | stale hk hw' => exact hdone (by rw [hw']; exact Option.some_ne_none _)

end Steps

end ServerManager
