import ServerManager.Coroutine.Protocol
import ServerManager.Core.Dispatch

/-!
# What an Event Is For

An event of the dispatch loop prepares the world, and then a handler runs in it:
one that is new, one whose operation is complete, or one that was in the
completion queue. `Picks` is that and nothing else, so what an event is in a
protocol is said for all protocols at once.

## Main definitions

* `directTarget`: The handler an event resumes on the spot.
* `runsIn`: A handler runs in an event.
* `Picks`: The handler an event is for, its program and the world in which it runs.
* `Takes`: How it begins, in a protocol.

## Theorems

* `step_picks`: An event is for a handler, or nobody runs.
* `picks_outcome`: What the event is in a protocol.
* `advance_stale`: No completion is lost where no pending call is resumed.
-/

namespace ServerManager

open Coroutine

variable [Keccak]

/-- What the environment decides in an event. -/
def Event.env : Event → Option Environment
  | .arrive _ _ _ env | .complete _ _ env | .dequeue _ env | .alarm _ env => some env
  | .fire _ | .completeStale _ => none

/-- The handler an event resumes on the spot, if it does. -/
def directTarget (w : Manager) : Event → Option HandlerId
  | .arrive rpc peer fuel env => (handlerOf fuel peer rpc w.next).target (env.apply w.shared)
  | .complete h reply env =>
    (w.handlers h).bind fun p => (p.k (reply p.op)).target (env.apply w.shared)
  | .dequeue i env =>
    let queue := w.shared.completionQueue.eraseIdx i
    ((w.shared.completionQueue[i]?).join.bind w.handlers).bind fun p =>
      (p.k default).target (env.apply { w.shared with completionQueue := queue })
  | .alarm i env =>
    let ok := decide (w.shared.alarms[i]? = some AlarmState.fired)
    (handlerOf 0 "" (.checkinDeadline i) w.next).target
      ({ env with ok := ok }.apply (setAlarm w i .delivered).shared)
  | .fire _ | .completeStale _ => none

/-- The handler an event is for. -/
def Event.runner (w : Manager) : Event → Option HandlerId
  | .arrive .. | .alarm .. => some w.next
  | .complete h _ _ => some h
  | .dequeue i _ => (w.shared.completionQueue[i]?).join
  | .fire _ | .completeStale _ => none

/-- Handler `h` runs in an event. -/
def runsIn (w : Manager) (e : Event) (h : HandlerId) : Bool :=
  e.runner w == some h || directTarget w e == some h

/-! ### The handler an event is for -/

/-- Event `e` is for handler `h`, created for `rpc`, which goes on as `c` in the
    world the event has prepared. -/
inductive Picks (w : Manager) : Event → HandlerId → Rpc → Manager → Handler Unit → Prop
  /-- Its request came. -/
  | arrived {rpc : Rpc} {peer : String} {fuel : Nat} {env : Environment}
      (hrpc : ∀ a, rpc ≠ .checkinDeadline a) :
      Picks w (.arrive rpc peer fuel env) w.next rpc { prepare w env with next := w.next + 1 }
        (handlerOf fuel peer rpc w.next)
  /-- Its alarm came out of the queue. -/
  | expired {a : Nat} {env : Environment} {ok : Bool}
      (hfire : w.shared.alarms[a]? = some .fired ∨ w.shared.alarms[a]? = some .cancelled)
      (hok : ok = decide (w.shared.alarms[a]? = some .fired)) :
      Picks w (.alarm a env) w.next (.checkinDeadline a)
        { prepare (setAlarm w a .delivered) { env with ok := ok } with next := w.next + 1 }
        (handlerOf 0 "" (.checkinDeadline a) w.next)
  /-- What it waited for came. -/
  | completed {h : HandlerId} {reply : (op : Op) → op.Reply} {env : Environment}
      {p : Suspended handlerSignature Rpc} (hp : w.handlers h = some p)
      (hop : p.op.completes = true) :
      Picks w (.complete h reply env) h p.tag ((prepare w env).put h none) (p.k (reply p.op))
  /-- It was in the completion queue. -/
  | dequeued {j : Nat} {env : Environment} {h : HandlerId} {p : Suspended handlerSignature Rpc}
      (hj : w.shared.completionQueue[j]? = some (some h)) (hp : w.handlers h = some p) :
      Picks w (.dequeue j env) h p.tag
        (((prepare { w with shared := { w.shared with
          completionQueue := w.shared.completionQueue.eraseIdx j } } env).markStale h p.op).put h none)
        (p.k (handlerSignature.blank p.op))

/-- Nobody runs in an event: an alarm fires, or the process ends. -/
inductive Idles (w : Manager) : Event → Manager → Prop
  | fire {a : Nat} (ha : w.shared.alarms[a]? = some .running) :
      Idles w (.fire a) (setAlarm w a .fired)
  | null {j : Nat} {env : Environment} {w' : Manager}
      (hj : w.shared.completionQueue[j]? = some none) (hw' : w'.halted = some .nullCoroutine) :
      Idles w (.dequeue j env) w'
  | gone {j : Nat} {env : Environment} {h : HandlerId} {w' : Manager}
      (hj : w.shared.completionQueue[j]? = some (some h)) (hh : w.handlers h = none)
      (hw' : w'.halted = some .danglingCoroutine) : Idles w (.dequeue j env) w'
  | stale {k : Nat} {g : HandlerId} {w' : Manager} (hk : w.stale[k]? = some g)
      (hw' : w'.halted = some .staleCompletion) : Idles w (.completeStale k) w'

/-- The process does not go on once it has ended. -/
theorem step_running {w w' : Manager} {e : Event} (hstep : step w e = some w') :
    w.halted = none := by
  cases hw : w.halted with
  | none => rfl
  | some x => unfold step at hstep; rw [hw] at hstep; cases hstep

/-- A request that comes starts its handler. -/
theorem step_arrive {w : Manager} {rpc : Rpc} (hlive : w.halted = none)
    (hrpc : ∀ a, rpc ≠ .checkinDeadline a) (peer : String) (fuel : Nat) (env : Environment) :
    step w (.arrive rpc peer fuel env) =
      World.advance { prepare w env with next := w.next + 1 } w.next rpc
        (handlerOf fuel peer rpc w.next) := by
  unfold step
  rw [hlive]
  cases rpc with
  | checkinDeadline a => exact absurd rfl (hrpc a)
  | _ => rfl

/-- An event is for a handler, or nobody runs. -/
theorem step_picks {w w' : Manager} {e : Event} (hstep : step w e = some w') :
    (∃ h rpc w₁ c, Picks w e h rpc w₁ c ∧ w₁.advance h rpc c = some w') ∨ Idles w e w' := by
  have hrunning : ¬ w.halted.isSome = true := by
    rw [step_running hstep]
    exact Bool.false_ne_true
  unfold step at hstep
  rw [if_neg hrunning] at hstep
  cases e with
  | arrive rpc peer fuel env =>
      have hrpc : ∀ a, rpc ≠ .checkinDeadline a := by
        rintro a rfl
        cases hstep
      have hstart : (prepare w env).start rpc (handlerOf fuel peer rpc) = some w' := by
        cases rpc with
        | checkinDeadline a => cases hstep
        | _ => exact hstep
      exact Or.inl ⟨_, _, _, _, .arrived hrpc, hstart⟩
  | complete h reply env =>
      simp only at hstep
      cases hp : w.handlers h with
      | none => simp only [hp] at hstep; cases hstep
      | some p =>
          simp only [hp] at hstep
          by_cases hop : p.op.completes = true
          · rw [if_pos hop] at hstep
            have hp₁ : (prepare w env).handlers h = some p := hp
            unfold World.resume at hstep
            rw [hp₁] at hstep
            exact Or.inl ⟨_, _, _, _, .completed hp hop, hstep⟩
          · rw [if_neg hop] at hstep
            cases hstep
  | dequeue j env =>
      simp only at hstep
      rcases hj : w.shared.completionQueue[j]? with - | (- | h)
      · simp only [hj] at hstep; cases hstep
      · simp only [hj] at hstep
        cases hstep
        exact Or.inr (.null hj rfl)
      · simp only [hj] at hstep
        unfold World.resumeBlank at hstep
        cases hp : w.handlers h with
        | none =>
            have hp₁ : (prepare { w with shared := { w.shared with
                completionQueue := w.shared.completionQueue.eraseIdx j } } env).handlers h = none := hp
            rw [hp₁] at hstep
            cases hstep
            exact Or.inr (.gone hj hp rfl)
        | some p =>
            have hp₁ : (prepare { w with shared := { w.shared with
                completionQueue := w.shared.completionQueue.eraseIdx j } } env).handlers h =
                some p := hp
            rw [hp₁] at hstep
            exact Or.inl ⟨_, _, _, _, .dequeued hj hp, hstep⟩
  | fire a =>
      simp only at hstep
      by_cases ha : w.shared.alarms[a]? = some .running
      · rw [if_pos ha] at hstep
        cases hstep
        exact Or.inr (.fire ha)
      · rw [if_neg ha] at hstep
        cases hstep
  | alarm a env =>
      simp only at hstep
      split at hstep
      · next hfire => exact Or.inl ⟨_, _, _, _, .expired (Or.inl hfire) (by simp [hfire]), hstep⟩
      · next hfire => exact Or.inl ⟨_, _, _, _, .expired (Or.inr hfire) (by simp [hfire]), hstep⟩
      · cases hstep
  | completeStale k =>
      simp only at hstep
      cases hk : w.stale[k]? with
      | none => simp only [hk] at hstep; cases hstep
      | some g =>
          simp only [hk] at hstep
          cases hstep
          exact Or.inr (.stale hk rfl)

section Picks

variable {w w₁ w' : Manager} {e : Event} {h : HandlerId} {rpc : Rpc} {c : Handler Unit}

omit [Keccak] in
theorem markStale_fields (w : Manager) (h : HandlerId) (op : Op) :
    (w.markStale h op).shared = w.shared ∧ (w.markStale h op).handlers = w.handlers ∧
      (w.markStale h op).halted = w.halted := by
  unfold World.markStale
  split
  · exact ⟨rfl, rfl, rfl⟩
  · exact ⟨rfl, rfl, rfl⟩

/-- The context the event has prepared: the environment has decided, and maybe an
    alarm or an entry of the completion queue was taken out. -/
inductive Prepared (w : Manager) (h : HandlerId) : HandlerContext → Prop
  | plain {env : Environment} : Prepared w h (env.apply w.shared)
  | alarm {env : Environment} {a : Nat} : Prepared w h (env.apply (setAlarm w a .delivered).shared)
  | queue {env : Environment} {j : Nat} (hj : w.shared.completionQueue[j]? = some (some h)) :
      Prepared w h (env.apply { w.shared with
        completionQueue := w.shared.completionQueue.eraseIdx j })

theorem Picks.prepared (hp : Picks w e h rpc w₁ c) : Prepared w h w₁.shared := by
  cases hp with
  | arrived => exact .plain
  | expired => exact .alarm
  | completed => exact .plain
  | @dequeued j env _ p hj hp =>
      have hshared := (markStale_fields (prepare { w with shared := { w.shared with
        completionQueue := w.shared.completionQueue.eraseIdx j } } env) h p.op).1
      exact hshared.symm ▸ .queue hj

theorem Picks.runner (hp : Picks w e h rpc w₁ c) : e.runner w = some h := by
  cases hp with
  | arrived => rfl
  | expired => rfl
  | completed => rfl
  | dequeued hj => simp only [Event.runner, hj, Option.join_some]

theorem Picks.direct (hp : Picks w e h rpc w₁ c) : directTarget w e = c.target w₁.shared := by
  cases hp with
  | arrived => rfl
  | expired hfire hok =>
      rw [directTarget, ← hok]
      rfl
  | completed hp =>
      simp only [directTarget, hp, Option.bind_some]
      rfl
  | @dequeued j env h p hj hp =>
      simp only [directTarget, hj, Option.join_some, Option.bind_some, hp]
      show _ = (p.k default).target (World.markStale _ h p.op).shared
      rw [(markStale_fields _ h p.op).1]
      rfl

/-- The others are parked where they were. -/
theorem Picks.handlers (hp : Picks w e h rpc w₁ c) {k : HandlerId} (hk : k ≠ h) :
    w₁.handlers k = w.handlers k := by
  cases hp with
  | arrived => rfl
  | expired => rfl
  | completed => exact if_neg hk
  | dequeued =>
      refine (if_neg hk).trans ?_
      rw [(markStale_fields _ _ _).2.1]
      rfl

theorem Picks.halted (hp : Picks w e h rpc w₁ c) : w₁.halted = w.halted := by
  cases hp with
  | arrived => rfl
  | expired => rfl
  | completed => rfl
  | dequeued => exact (markStale_fields _ _ _).2.2

/-- The handler takes the turn: it is new, or it was parked, and it is filed nowhere
    while it runs. -/
def Takes (P : Protocol handlerSignature Rpc) (w : Manager) (φ : HandlerId → Option P.Phase)
    (h : HandlerId) (rpc : Rpc) (w₁ : Manager) (ph : P.Phase)
    (φ₀ : HandlerId → Option P.Phase) : Prop :=
  (φ h = none ∧ h = w.next ∧ w₁.next = w.next + 1 ∧ ph = P.init ∧ φ₀ = φ) ∨
    (φ h = some ph ∧ w₁.next = w.next ∧ φ₀ = Function.update φ h none ∧
      ∃ p, w.handlers h = some p ∧ p.tag = rpc ∧ P.At rpc ph p.op)

/-- What an event is in a protocol that every handler keeps to. -/
theorem picks_outcome {P : Protocol handlerSignature Rpc} {φ : HandlerId → Option P.Phase}
    (hpick : Picks w e h rpc w₁ c) (ha : P.Abides w φ) (hw : w.halted = none)
    (hlive : P.Live w₁.shared) (hkeep : ∀ fuel peer,
      P.Keeps h rpc (handlerOf fuel peer rpc h) P.init w₁.shared)
    (hadv : w₁.advance h rpc c = some w') :
    ∃ ph φ₀, Takes P w φ h rpc w₁ ph φ₀ ∧ P.Outcome h rpc ph w₁ φ₀ (directTarget w e) w' := by
  rw [hpick.direct]
  have hhalted := hpick.halted.trans hw
  have hnew : ∀ fuel peer, c = handlerOf fuel peer rpc h → h = w.next → w₁.next = w.next + 1 →
      w₁.handlers = w.handlers →
        ∃ ph φ₀, Takes P w φ h rpc w₁ ph φ₀ ∧ P.Outcome h rpc ph w₁ φ₀ (c.target w₁.shared) w' := by
    intro fuel peer hc hh hnext hhandlers
    have hφ : φ h = none := ha.absent (ha.unused h (Nat.le_of_eq hh.symm))
    have ha₁ : P.Abides w₁ φ := by
      refine ⟨hlive, ?_, fun k hk => ?_⟩
      · rw [hhandlers]
        exact ha.follows
      · rw [hhandlers]
        exact ha.unused k (by omega)
    have hlt : h < w₁.next := by
      rw [hnext, hh]
      exact Nat.lt_succ_self _
    exact ⟨P.init, φ, Or.inl ⟨hφ, hh, hnext, rfl, rfl⟩,
      Protocol.abides_advance ha₁ hφ hlt hhalted (hc ▸ hkeep fuel peer) hadv⟩
  have hold : ∀ p (r : p.op.Reply), w.handlers h = some p → p.tag = rpc → c = p.k r →
      w₁.next = w.next → (∀ k, w₁.handlers k = if k = h then none else w.handlers k) →
        ∃ ph φ₀, Takes P w φ h rpc w₁ ph φ₀ ∧ P.Outcome h rpc ph w₁ φ₀ (c.target w₁.shared) w' := by
    rintro p r hp rfl rfl hnext hhandlers
    rcases ha.phase hp with ⟨ph, hφ, hat, hk⟩
    have hlt : h < w₁.next := by
      rw [hnext]
      by_contra hge
      rw [ha.unused h (Nat.le_of_not_lt hge)] at hp
      cases hp
    have ha₁ : P.Abides w₁ (Function.update φ h none) := by
      refine ⟨hlive, fun k => ?_, fun k hk => ?_⟩
      · rw [hhandlers k]
        by_cases hkh : k = h
        · subst hkh
          rw [if_pos rfl, Function.update_self]
          trivial
        · rw [if_neg hkh, Function.update_of_ne hkh]
          exact ha.follows k
      · rw [hhandlers k, if_neg (Nat.ne_of_gt (Nat.lt_of_lt_of_le hlt hk))]
        exact ha.unused k (hnext ▸ hk)
    exact ⟨ph, Function.update φ h none, Or.inr ⟨hφ, hnext, rfl, p, hp, rfl, hat⟩,
      Protocol.abides_advance ha₁ (Function.update_self ..) hlt hhalted (hk r _ hlive) hadv⟩
  cases hpick with
  | arrived => exact hnew _ _ rfl rfl rfl rfl
  | expired => exact hnew _ _ rfl rfl rfl rfl
  | completed hp => exact hold _ _ hp rfl rfl rfl fun k => rfl
  | dequeued hj hp =>
      refine hold _ _ hp rfl rfl (World.markStale_next ..) fun k => ?_
      show (if k = h then none else (World.markStale _ _ _).handlers k) = _
      rw [(markStale_fields _ _ _).2.1]
      rfl

end Picks

/-! ### Completions nobody waits for -/

omit [Keccak] in
theorem land_stale {w w' : Manager} {h : HandlerId} {tag : Rpc}
    {r : Landing handlerSignature Unit × HandlerContext} (hland : w.land h tag r = some w') :
    w'.stale = w.stale := by
  rcases r with ⟨l, s⟩
  cases l with
  | spinning => cases hland
  | _ => cases hland; rfl

omit [Keccak] in
/-- No completion is lost where no pending call is resumed. -/
theorem advance_stale {w w' : Manager} {h : HandlerId} {tag : Rpc} {c : Handler Unit}
    (hadv : w.advance h tag c = some w')
    (hcalm : ∀ g p, c.target w.shared = some g → w.handlers g = some p →
      p.op.completes = false) : w'.stale = w.stale := by
  unfold World.advance at hadv
  split at hadv
  · next op k s hseg =>
      split at hadv
      · exact land_stale hadv
      · next g htarget =>
          have hdirect : c.target w.shared = some g := by
            unfold Prog.target
            rw [hseg]
            exact htarget
          split at hadv
          · cases hadv
            rfl
          · next p hp =>
              have hcompletes := hcalm g p hdirect hp
              have hmark : ({ w with shared := s } : Manager).markStale g p.op =
                  { w with shared := s } := by
                refine if_neg fun hcon => ?_
                have hcon' : p.op.completes = true := hcon
                rw [hcompletes] at hcon'
                cases hcon'
              rw [hmark] at hadv
              split at hadv
              · cases hadv
              · next hland =>
                  have hsame := land_stale hland
                  split at hadv
                  · cases hadv
                    exact hsame
                  · exact (land_stale hadv).trans hsame
  · exact land_stale hadv

end ServerManager
