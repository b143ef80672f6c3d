import ServerManager.Theory.Lifecycle
import ServerManager.Theory.Moves

/-!
# Events in the Ledger

What an event of the dispatch loop is in the ledger protocol, whatever the RPCs
of the handlers. A handler begins to run with the ledger as the event has
prepared it, and if it resumes another one on the spot, the other has the turn
and the first is over.

A handler that runs has the session it has a reference to, or else the event
takes the process down. Nothing has to be known about the run before the event
for that.

## Main definitions

* `Onset`: How the handler that an event is for begins to run.
* `Entry`: How a handler begins to run, maybe resumed by another.
* `Passage`: What an event does.
* `Fault`: How an event can end the process.
* `Sound`: A world that abides by the protocol and satisfies an invariant.

## Theorems

* `step_passes`: Every event is the passage of a handler.
* `runs_sound`: What every passage keeps, every run keeps.
-/

namespace ServerManager

open Coroutine

variable [Keccak]

/-- How the handler that an event is for begins to run, with which phase and
    which ledger. -/
inductive Onset (w : Manager) (φ : HandlerId → Option Hold) (e : Event) (h : HandlerId) :
    Rpc → Hold → Ledger → Prop
  /-- Its request came. -/
  | arrived {rpc : Rpc} {peer : String} {fuel : Nat} {env : Environment}
      (he : e = .arrive rpc peer fuel env) (hrpc : ∀ a, rpc ≠ .checkinDeadline a)
      (hnew : h = w.next) (hφ : φ h = none) :
      Onset w φ e h rpc .fresh { Ledger.of w.shared with ok := env.ok }
  /-- Its alarm came out of the queue. -/
  | expired {a : Nat} {env : Environment} (he : e = .alarm a env)
      (hfire : w.shared.alarms[a]? = some .fired ∨ w.shared.alarms[a]? = some .cancelled)
      (hnew : h = w.next) (hφ : φ h = none) :
      Onset w φ e h (.checkinDeadline a) .fresh { Ledger.of w.shared with
        ok := decide (w.shared.alarms[a]? = some .fired)
        alarms := w.shared.alarms.set a .delivered }
  /-- What it waited for came. -/
  | completed {p : Suspended handlerSignature Rpc} {ph : Hold}
      {reply : (op : Op) → op.Reply} {env : Environment} (he : e = .complete h reply env)
      (hp : w.handlers h = some p) (hφ : φ h = some ph) (hat : HoldAt p.tag ph p.op)
      (hop : p.op.completes = true) :
      Onset w φ e h p.tag ph { Ledger.of w.shared with ok := env.ok }
  /-- It was in the completion queue. -/
  | dequeued {p : Suspended handlerSignature Rpc} {ph : Hold} {j : Nat} {env : Environment}
      (he : e = .dequeue j env) (hj : w.shared.completionQueue[j]? = some (some h))
      (hp : w.handlers h = some p) (hφ : φ h = some ph) (hat : HoldAt p.tag ph p.op) :
      Onset w φ e h p.tag ph { Ledger.of w.shared with ok := env.ok }

/-- How a handler begins to run. -/
inductive Entry (w : Manager) (φ : HandlerId → Option Hold) (e : Event) (i : HandlerId) :
    Rpc → Hold → Ledger → Prop
  /-- The event is for it. -/
  | onset {rpc : Rpc} {ph : Hold} {L : Ledger} (hon : Onset w φ e i rpc ph L)
      (hdirect : directTarget w e = none) : Entry w φ e i rpc ph L
  /-- The answer to a CheckIn was acknowledged. -/
  | checkedIn {h : HandlerId} {address : String} {p : Suspended handlerSignature Rpc} {ph : Hold}
      {L : Ledger} (hon : Onset w φ e h (.checkIn address) (.checkedIn i) L)
      (hdirect : directTarget w e = some i) (hne : i ≠ h) (hp : w.handlers i = some p)
      (hφ : φ i = some ph) (hat : HoldAt p.tag ph p.op) : Entry w φ e i p.tag ph L
  /-- A deadline expired. -/
  | expired {h : HandlerId} {a : Nat} {cctx : CheckinContext}
      {p : Suspended handlerSignature Rpc} {ph : Hold} {L : Ledger}
      (hon : Onset w φ e h (.checkinDeadline a) .fresh L) (hok : L.ok = true)
      (hwait : L.waiting = some cctx) (hi : cctx.coroutine = i)
      (hdirect : directTarget w e = some i) (hne : i ≠ h) (hp : w.handlers i = some p)
      (hφ : φ i = some ph) (hat : HoldAt p.tag ph p.op) : Entry w φ e i p.tag ph (L.mark false)

/-- What an event does: a handler runs, up to where it is parked next. Whoever
    resumed it is over. -/
structure Passage (w : Manager) (φ : HandlerId → Option Hold) (e : Event) (i : HandlerId)
    (rpc : Rpc) (ph : Hold) (L : Ledger) (t : Option Hold) (φ' : HandlerId → Option Hold)
    (L' : Ledger) : Prop where
  entry : Entry w φ e i rpc ph L
  borrowed : Borrowed ph w.shared
  step : LedgerStep i rpc ph L t L'
  after : φ' i = t
  others : ∀ k, k ≠ i → φ' k = φ k ∨ (φ' k = none ∧ ∃ g, φ k = some (.checkedIn g))
  runnerOver : ∀ k, e.runner w = some k → k ≠ i → φ' k = none
  ran : runsIn w e i = true

/-- How an event can end the process: a handler crashes, or in a way that has
    to do with neither check-ins nor the session. -/
def Fault (w : Manager) (φ : HandlerId → Option Hold) (e : Event) (x : Halt) : Prop :=
  x.foreign = true ∨
    ∃ i rpc ph L, Entry w φ e i rpc ph L ∧ runsIn w e i = true ∧
      (Borrowed ph w.shared → LedgerCrash rpc ph L x)

/-- What becomes of an event: the process ends, or an alarm fires, or a handler
    runs. -/
def Passes (w : Manager) (φ : HandlerId → Option Hold) (e : Event) (w' : Manager) : Prop :=
  (∃ x, w'.halted = some x ∧ Fault w φ e x) ∨
  (w'.halted = none ∧ ∃ φ', ledgerProtocol.Abides w' φ' ∧
    ((∃ a, e = .fire a ∧ φ' = φ ∧ w.shared.alarms[a]? = some .running ∧
        Ledger.of w'.shared = { Ledger.of w.shared with alarms := w.shared.alarms.set a .fired }) ∨
      ∃ i rpc ph L t, Passage w φ e i rpc ph L t φ' (Ledger.of w'.shared)))

/-! ### Every event is the passage of a handler -/

omit [Keccak] in
theorem borrowed_congr {ph : Hold} {s s' : HandlerContext}
    (hs : (Ledger.of s').session = (Ledger.of s).session) : Borrowed ph s' ↔ Borrowed ph s := by
  unfold Borrowed
  simp only [valid_iff, hs]

omit [Keccak] in
/-- Only a handler that resumes another is parked on such an operation. -/
theorem holdAt_target {rpc : Rpc} {ph : Hold} {op : Op} {g : HandlerId} (hat : HoldAt rpc ph op)
    (htarget : Op.target op = some g) : ph = .resuming g := by
  cases hat with
  | resuming => exact congrArg _ (Option.some.inj htarget)
  | _ => cases htarget

omit [Keccak] in
theorem holdAt_ne_fresh {rpc : Rpc} {ph : Hold} {op : Op} (hat : HoldAt rpc ph op) :
    ph ≠ .fresh := by
  cases hat <;> exact Hold.noConfusion

omit [Keccak] in
/-- A handler that resumed another is over after that. -/
theorem step_resuming {h g : HandlerId} {rpc : Rpc} {L L' : Ledger} {t : Option Hold}
    (hstep : LedgerStep h rpc (.resuming g) L t L') : t = none ∧ L' = L := by
  cases hstep with
  | resumed => exact ⟨rfl, rfl⟩

omit [Keccak] in
/-- The ways to a direct resume. -/
theorem step_wakes {h g : HandlerId} {rpc : Rpc} {ph : Hold} {L L' : Ledger}
    (hstep : LedgerStep h rpc ph L (some (.resuming g)) L') :
    (∃ address, rpc = .checkIn address ∧ ph = .checkedIn g ∧ L' = L) ∨
      ∃ a cctx, rpc = .checkinDeadline a ∧ ph = .fresh ∧ L.ok = true ∧ L.waiting = some cctx ∧
        cctx.coroutine = g ∧ L' = L.mark false := by
  cases hstep with
  | rest ht => rcases ht with ht | ht <;> cases ht
  | leave hset hs ht => rcases ht with ht | ht <;> cases ht
  | @checkedIn address => exact Or.inl ⟨address, rfl, rfl, rfl⟩
  | @deadline a _ cctx hok hw => exact Or.inr ⟨a, cctx, rfl, rfl, hok, hw, rfl, rfl⟩

omit [Keccak] in
/-- A handler that resumed another has no check-in to do with any more. -/
theorem crash_resuming {h g k : HandlerId} {rpc : Rpc} {ph : Hold} {L L₁ L₂ : Ledger} {x : Halt}
    (hstep : LedgerStep h rpc ph L (some (.resuming g)) L₁)
    (hcrash : LedgerCrash rpc (.resuming k) L₂ x) : x.foreign = true := by
  have hrpc : Triggers rpc = false := by
    rcases step_wakes hstep with ⟨address, rfl, -⟩ | ⟨a, cctx, rfl, -⟩
    · rfl
    · rfl
  cases hcrash with
  | waiting htriggers => rw [hrpc] at htriggers; cases htriggers
  | erased hspot => cases hspot
  | unset hspot => cases hspot
  | other hx => exact hx

/-- How the handler that an event is for begins to run, in the world in which
    the event has prepared it. -/
structure Begun (w w₁ : Manager) (φ φ₀ : HandlerId → Option Hold) (e : Event) (h : HandlerId)
    (rpc : Rpc) (ph : Hold) : Prop where
  onset : Onset w φ e h rpc ph (Ledger.of w₁.shared)
  session : (Ledger.of w₁.shared).session = (Ledger.of w.shared).session
  handlers : ∀ k, k ≠ h → w₁.handlers k = w.handlers k
  running : φ₀ h = none
  others : ∀ k, k ≠ h → φ₀ k = φ k
  runner : e.runner w = some h

omit [Keccak] in
theorem Onset.phase {w : Manager} {φ : HandlerId → Option Hold} {e : Event} {h : HandlerId}
    {rpc : Rpc} {ph : Hold} {L : Ledger} (hon : Onset w φ e h rpc ph L) :
    (ph = .fresh ∧ φ h = none ∧ h = w.next) ∨ (ph ≠ .fresh ∧ φ h = some ph) := by
  cases hon with
  | arrived _ _ hnew hφ => exact Or.inl ⟨rfl, hφ, hnew⟩
  | expired _ _ hnew hφ => exact Or.inl ⟨rfl, hφ, hnew⟩
  | completed _ _ hφ hat => exact Or.inr ⟨holdAt_ne_fresh hat, hφ⟩
  | dequeued _ _ _ hφ hat => exact Or.inr ⟨holdAt_ne_fresh hat, hφ⟩

/-- The handler that was resumed, and the ledger it finds. -/
theorem Begun.wakes {w w₁ : Manager} {φ φ₀ : HandlerId → Option Hold} {e : Event}
    {h g : HandlerId} {rpc : Rpc} {ph phg : Hold} {L₂ : Ledger}
    {p : Suspended handlerSignature Rpc} (hb : Begun w w₁ φ φ₀ e h rpc ph)
    (ha : ledgerProtocol.Abides w φ)
    (hstep : LedgerStep h rpc ph (Ledger.of w₁.shared) (some (.resuming g)) L₂)
    (hdirect : directTarget w e = some g) (hp : w₁.handlers g = some p)
    (hφg : φ₀ g = some phg) :
    g ≠ h ∧ Entry w φ e g p.tag phg L₂ ∧ L₂.session = (Ledger.of w.shared).session ∧
      (φ h = none ∨ ∃ k, φ h = some (.checkedIn k)) := by
  have hne : g ≠ h := by
    rintro rfl
    rw [hb.running] at hφg
    cases hφg
  rw [hb.handlers g hne] at hp
  rw [hb.others g hne] at hφg
  rcases ha.phase hp with ⟨phg', hφg', hat, -⟩
  rw [hφg] at hφg'
  cases hφg'
  rcases step_wakes hstep with ⟨address, rfl, rfl, rfl⟩ | ⟨a, cctx, rfl, rfl, hok, hwait, hi, rfl⟩
  · refine ⟨hne, .checkedIn hb.onset hdirect hne hp hφg hat, hb.session, ?_⟩
    rcases hb.onset.phase with ⟨hfresh, -⟩ | ⟨-, hφh⟩
    · cases hfresh
    · exact Or.inr ⟨g, hφh⟩
  · refine ⟨hne, .expired hb.onset hok hwait hi hdirect hne hp hφg hat, hb.session, ?_⟩
    rcases hb.onset.phase with ⟨-, hφh, -⟩ | ⟨hne, -⟩
    · exact Or.inl hφh
    · exact absurd rfl hne

/-- An outcome of the world is a passage in the ledger. -/
theorem passes_of_outcome {w w₁ w' : Manager} {φ φ₀ : HandlerId → Option Hold} {e : Event}
    {h : HandlerId} {rpc : Rpc} {ph : Hold} (hb : Begun w w₁ φ φ₀ e h rpc ph)
    (ha : ledgerProtocol.Abides w φ)
    (hout : ledgerProtocol.Outcome h rpc ph w₁ φ₀ (directTarget w e) w') : Passes w φ e w' := by
  have hran : runsIn w e h = true := by simp [runsIn, hb.runner]
  have hborrow : ∀ {ph}, Borrowed ph w.shared → Borrowed ph w₁.shared :=
    (borrowed_congr hb.session).2
  rcases hout with ⟨x, hx, hbreak⟩ | ⟨hhalt, -, φ', ha', hadv⟩
  · refine Or.inl ⟨x, hx, ?_⟩
    cases hbreak with
    | own hhalt hdirect =>
        exact Or.inr ⟨h, rpc, ph, _, .onset hb.onset hdirect, hran, fun hbor => hhalt (hborrow hbor)⟩
    | gone hstep hat htarget hdirect hg => exact Or.inl rfl
    | @target _ _ s₁ _ g p phg _ hstep hat htarget hdirect hg hφg hhalt =>
        rw [holdAt_target hat htarget] at hstep
        rcases hb.wakes ha hstep.2 hdirect hg hφg with ⟨hne, hentry, hsession, -⟩
        refine Or.inr ⟨g, p.tag, phg, _, hentry, by simp [runsIn, hdirect], fun hbor => hhalt ?_⟩
        exact (borrowed_congr hsession).2 hbor
    | tail hstep hat htarget hdirect hg hφg hstepg hhalt =>
        rw [holdAt_target hat htarget] at hstep hhalt
        exact Or.inl (crash_resuming hstep.2 (hhalt (borrowed_of_none rfl _)))
  · refine Or.inr ⟨hhalt, φ', ha', Or.inr ?_⟩
    generalize w'.shared = s' at hadv
    cases hadv with
    | @plain t _ hstep hdirect =>
        refine ⟨h, rpc, ph, _, t, .onset hb.onset hdirect, (borrowed_congr hb.session).1 hstep.1,
          hstep.2, Function.update_self .., fun k hk => ?_, fun k hk hne => ?_, hran⟩
        · rw [Function.update_of_ne hk]
          exact Or.inl (hb.others k hk)
        · rw [hb.runner] at hk
          exact absurd (Option.some.inj hk).symm hne
    | @nested _ _ _ _ _ g p phg tg _ hstep hat htarget hdirect hg hφg hstepg htail =>
        rw [holdAt_target hat htarget] at hstep htail
        rcases hb.wakes ha hstep.2 hdirect hg hφg with ⟨hne, hentry, hsession, hover⟩
        rcases step_resuming htail.2 with ⟨rfl, hL⟩
        rw [hL]
        refine ⟨g, p.tag, phg, _, tg, hentry, ?_, hstepg.2, ?_, fun k hk => ?_, fun k hk _ => ?_,
          by simp [runsIn, hdirect]⟩
        · exact (borrowed_congr hsession).1 hstepg.1
        · rw [Function.update_of_ne hne, Function.update_self]
        · by_cases hkh : k = h
          · subst hkh
            rw [Function.update_self]
            rcases hover with hφh | hφh
            · exact Or.inl hφh.symm
            · exact Or.inr ⟨rfl, hφh⟩
          · rw [Function.update_of_ne hkh, Function.update_of_ne hk]
            exact Or.inl (hb.others k hkh)
        · rw [hb.runner] at hk
          cases hk
          exact Function.update_self ..

omit [Keccak] in
/-- The protocol asks nothing of the shared state. -/
theorem abides_context {w w₁ : Manager} {φ : HandlerId → Option Hold}
    (ha : ledgerProtocol.Abides w φ) (hh : w₁.handlers = w.handlers) (hn : w₁.next = w.next) :
    ledgerProtocol.Abides w₁ φ :=
  ⟨trivial, by rw [hh]; exact ha.follows, by rw [hh, hn]; exact ha.unused⟩

/-- A handler that is started passes. -/
theorem passes_start {w w' : Manager} {φ : HandlerId → Option Hold} {e : Event} {rpc : Rpc}
    {peer : String} {fuel : Nat} (w₁ : Manager) (ha : ledgerProtocol.Abides w φ) (hw : w.halted = none)
    (hw₁ : w₁ = { w with shared := w₁.shared })
    (hsession : (Ledger.of w₁.shared).session = (Ledger.of w.shared).session)
    (honset : φ w.next = none → Onset w φ e w.next rpc .fresh (Ledger.of w₁.shared))
    (hrunner : e.runner w = some w.next)
    (hdirect : directTarget w e = (handlerOf fuel peer rpc w₁.next).target w₁.shared)
    (hstart : w₁.start rpc (handlerOf fuel peer rpc) = some w') : Passes w φ e w' := by
  have hnext : w₁.next = w.next := by rw [hw₁]
  have hhandlers : w₁.handlers = w.handlers := by rw [hw₁]
  have ha₁ : ledgerProtocol.Abides w₁ φ := abides_context ha hhandlers hnext
  have hhalt : w₁.halted = none := by rw [hw₁]; exact hw
  rcases Protocol.outcome_start ha₁ hhalt (keeps_ledger fuel peer rpc w₁.next w₁.shared) hstart
    with ⟨hφ, hout⟩
  rw [← hdirect, hnext] at hout
  rw [hnext] at hφ
  have hb : Begun w { w₁ with next := w.next + 1 } φ φ e w.next rpc .fresh :=
    ⟨honset hφ, hsession, fun k _ => congrFun hhandlers k, hφ, fun _ _ => rfl, hrunner⟩
  exact passes_of_outcome hb ha hout

/-- A handler that goes on passes. -/
theorem passes_continue {w w' : Manager} {φ : HandlerId → Option Hold} {e : Event}
    {h : HandlerId} {p : Suspended handlerSignature Rpc} {r : p.op.Reply} (w₁ : Manager)
    (ha : ledgerProtocol.Abides w φ) (hw : w.halted = none) (hp : w.handlers h = some p)
    (hhandlers : w₁.handlers = w.handlers) (hnext : w₁.next = w.next)
    (hhalt : w₁.halted = w.halted)
    (hsession : (Ledger.of w₁.shared).session = (Ledger.of w.shared).session)
    (honset : ∀ ph, φ h = some ph → HoldAt p.tag ph p.op →
      Onset w φ e h p.tag ph (Ledger.of w₁.shared))
    (hrunner : e.runner w = some h)
    (hdirect : directTarget w e = (p.k r).target w₁.shared)
    (hadv : (w₁.put h none).advance h p.tag (p.k r) = some w') : Passes w φ e w' := by
  have ha₁ : ledgerProtocol.Abides w₁ φ := abides_context ha hhandlers hnext
  have hp₁ : w₁.handlers h = some p := by rw [hhandlers]; exact hp
  rcases Protocol.outcome_continue ha₁ (hhalt.trans hw) hp₁ hadv with ⟨ph, hφ, hat, hout⟩
  rw [← hdirect] at hout
  have hothers : ∀ k, k ≠ h → (w₁.put h none).handlers k = w.handlers k := by
    intro k hk
    show (if k = h then none else w₁.handlers k) = w.handlers k
    rw [if_neg hk, hhandlers]
  have hb : Begun w (w₁.put h none) φ (Function.update φ h none) e h p.tag ph :=
    ⟨honset ph hφ hat, hsession, hothers, Function.update_self ..,
      fun _ hk => Function.update_of_ne hk .., hrunner⟩
  exact passes_of_outcome hb ha hout

theorem passes_dequeue {w w' : Manager} {φ : HandlerId → Option Hold} {i : Nat} {h : HandlerId}
    {env : Environment} (ha : ledgerProtocol.Abides w φ) (hw : w.halted = none)
    (hi : w.shared.completionQueue[i]? = some (some h))
    (hstep : (prepare { w with shared := { w.shared with
      completionQueue := w.shared.completionQueue.eraseIdx i } } env).resumeBlank h = some w') :
    Passes w φ (.dequeue i env) w' := by
  generalize hw₁ : prepare { w with shared := { w.shared with
    completionQueue := w.shared.completionQueue.eraseIdx i } } env = w₁ at hstep
  have hh₁ : w₁.handlers = w.handlers := by rw [← hw₁]; rfl
  have hs₁ : w₁.shared = env.apply { w.shared with
      completionQueue := w.shared.completionQueue.eraseIdx i } := by rw [← hw₁]; rfl
  have hn₁ : w₁.next = w.next := by rw [← hw₁]; rfl
  have hhalt₁ : w₁.halted = w.halted := by rw [← hw₁]; rfl
  unfold World.resumeBlank at hstep
  cases hp : w₁.handlers h with
  | none =>
      rw [hp] at hstep
      cases hstep
      exact Or.inl ⟨_, rfl, Or.inl rfl⟩
  | some p =>
      rw [hp] at hstep
      rcases markStale_fields w₁ h p.op with ⟨hshared, hhandlers, hhalted⟩
      have hp' : w.handlers h = some p := hh₁ ▸ hp
      have hL : Ledger.of (w₁.markStale h p.op).shared = { Ledger.of w.shared with ok := env.ok } := by
        rw [hshared, hs₁]
        rfl
      refine passes_continue (w₁.markStale h p.op) ha hw hp' (hhandlers.trans hh₁)
        ((World.markStale_next ..).trans hn₁) (hhalted.trans hhalt₁) (by rw [hL])
        (fun ph hφ hat => ?_) ?_ ?_ hstep
      · rw [hL]
        exact .dequeued rfl hi hp' hφ hat
      · simp only [Event.runner, hi, Option.join_some]
      · simp only [directTarget, hi, Option.join_some, Option.bind_some, hp', hshared, hs₁]

/-- Every event is the passage of a handler, or the end of the process. -/
theorem step_passes {w w' : Manager} {φ : HandlerId → Option Hold} {e : Event}
    (ha : ledgerProtocol.Abides w φ) (hstep : step w e = some w') : Passes w φ e w' := by
  have hw : w.halted = none := step_running hstep
  have hrunning : ¬ w.halted.isSome = true := by
    rw [hw]
    exact Bool.false_ne_true
  unfold step at hstep
  rw [if_neg hrunning] at hstep
  cases e with
  | arrive rpc peer fuel env =>
      have hrpc : ∀ a, rpc ≠ .checkinDeadline a := by
        rintro a rfl
        cases hstep
      have hstart : (prepare w env).start rpc (handlerOf fuel peer rpc) = some w' := by
        cases rpc with
        | checkinDeadline a => cases hstep
        | _ => exact hstep
      exact passes_start (prepare w env) ha hw rfl rfl (fun hφ => .arrived rfl hrpc rfl hφ) rfl rfl
        hstart
  | complete h reply env =>
      simp only at hstep
      cases hp : w.handlers h with
      | none => simp only [hp] at hstep; cases hstep
      | some p =>
          simp only [hp] at hstep
          by_cases hop : p.op.completes = true
          · rw [if_pos hop] at hstep
            have hp₁ : (prepare w env).handlers h = some p := hp
            unfold World.resume at hstep
            rw [hp₁] at hstep
            refine passes_continue (prepare w env) ha hw hp rfl rfl rfl rfl
              (fun ph hφ hat => .completed rfl hp hφ hat hop) rfl ?_ hstep
            simp only [directTarget, hp, Option.bind_some]
            rfl
          · rw [if_neg hop] at hstep
            cases hstep
  | dequeue i env =>
      simp only at hstep
      rcases hi : w.shared.completionQueue[i]? with - | (- | h)
      · simp only [hi] at hstep; cases hstep
      · simp only [hi] at hstep
        cases hstep
        exact Or.inl ⟨_, rfl, Or.inl rfl⟩
      · simp only [hi] at hstep
        exact passes_dequeue ha hw hi hstep
  | fire i =>
      simp only at hstep
      by_cases hi : w.shared.alarms[i]? = some .running
      · rw [if_pos hi] at hstep
        cases hstep
        exact Or.inr ⟨hw, φ, abides_context ha rfl rfl, Or.inl ⟨i, rfl, rfl, hi, rfl⟩⟩
      · rw [if_neg hi] at hstep
        cases hstep
  | alarm i env =>
      have hstart : ∀ ok : Bool, ok = decide (w.shared.alarms[i]? = some AlarmState.fired) →
          (w.shared.alarms[i]? = some .fired ∨ w.shared.alarms[i]? = some .cancelled) →
          (prepare (setAlarm w i .delivered) { env with ok := ok }).start (.checkinDeadline i)
            (handlerOf 0 "" (.checkinDeadline i)) = some w' → Passes w φ (.alarm i env) w' := by
        intro ok hok hfire hstart
        refine passes_start (prepare (setAlarm w i .delivered) { env with ok := ok }) ha hw rfl rfl
          (fun hφ => ?_) rfl ?_ hstart
        · have hon := Onset.expired (e := .alarm i env) rfl hfire rfl hφ
          rw [← hok] at hon
          exact hon
        · rw [directTarget, ← hok]
          rfl
      simp only at hstep
      split at hstep
      · next hi => exact hstart true (by simp [hi]) (Or.inl hi) hstep
      · next hi => exact hstart false (by simp [hi]) (Or.inr hi) hstep
      · cases hstep
  | completeStale i =>
      simp only at hstep
      cases hi : w.stale[i]? with
      | none => simp only [hi] at hstep; cases hstep
      | some g =>
          simp only [hi] at hstep
          cases hstep
          exact Or.inl ⟨_, rfl, Or.inl rfl⟩

/-! ### How a handler begins -/

/-- A handler that begins to run finds the session as it was before the event. -/
theorem Entry.session {w : Manager} {φ : HandlerId → Option Hold} {e : Event} {i : HandlerId}
    {rpc : Rpc} {ph : Hold} {L : Ledger} (hentry : Entry w φ e i rpc ph L) :
    L.session = (Ledger.of w.shared).session := by
  have honset : ∀ {h rpc ph L}, Onset w φ e h rpc ph L →
      L.session = (Ledger.of w.shared).session := by
    intro h rpc ph L hon
    cases hon <;> rfl
  cases hentry with
  | onset hon => exact honset hon
  | checkedIn hon => exact honset hon
  | expired hon =>
      have hsession := honset hon
      exact hsession

/-- It was parked, or it is new. -/
theorem Entry.parked {w : Manager} {φ : HandlerId → Option Hold} {e : Event} {i : HandlerId}
    {rpc : Rpc} {ph : Hold} {L : Ledger} (hentry : Entry w φ e i rpc ph L) :
    (ph = .fresh ∧ φ i = none ∧ i = w.next) ∨
      (φ i = some ph ∧ ∃ p, w.handlers i = some p ∧ p.tag = rpc ∧ HoldAt rpc ph p.op) := by
  cases hentry with
  | onset hon =>
      cases hon with
      | arrived _ _ hnew hφ => exact Or.inl ⟨rfl, hφ, hnew⟩
      | expired _ _ hnew hφ => exact Or.inl ⟨rfl, hφ, hnew⟩
      | completed _ hp hφ hat => exact Or.inr ⟨hφ, _, hp, rfl, hat⟩
      | dequeued _ _ hp hφ hat => exact Or.inr ⟨hφ, _, hp, rfl, hat⟩
  | checkedIn _ _ _ hp hφ hat => exact Or.inr ⟨hφ, _, hp, rfl, hat⟩
  | expired _ _ _ _ _ _ hp hφ hat => exact Or.inr ⟨hφ, _, hp, rfl, hat⟩

omit [Keccak] in
/-- Only names that were given out are in use. -/
theorem abides_lt {w : Manager} {φ : HandlerId → Option Hold} (ha : ledgerProtocol.Abides w φ)
    {i : HandlerId} {p : Suspended handlerSignature Rpc} (hp : w.handlers i = some p) :
    i < w.next := by
  by_contra hge
  rw [ha.unused i (Nat.le_of_not_lt hge)] at hp
  cases hp

/-! ### Invariants -/

/-- The world abides by the protocol, in phases that satisfy an invariant. -/
def Sound (I : (HandlerId → Option Hold) → Ledger → Prop) (w : Manager) : Prop :=
  ∃ φ, ledgerProtocol.Abides w φ ∧ I φ (Ledger.of w.shared)

/-- What every passage keeps, every run keeps as long as the process does not
    end. -/
theorem runs_sound {C : Manager → Event → Manager → Prop}
    {I : (HandlerId → Option Hold) → Ledger → Prop} {w₀ w : Manager} (hrun : Runs step C w₀ w)
    (h₀ : Sound I w₀)
    (hfire : ∀ {φ L a}, L.alarms[a]? = some .running → I φ L →
      I φ { L with alarms := L.alarms.set a .fired })
    (hkeep : ∀ {w w' : Manager} {φ φ' e i rpc ph L t}, C w e w' → step w e = some w' →
      ledgerProtocol.Abides w φ → ledgerProtocol.Abides w' φ' → I φ (Ledger.of w.shared) →
      Passage w φ e i rpc ph L t φ' (Ledger.of w'.shared) → I φ' (Ledger.of w'.shared)) :
    w.halted = none → Sound I w := by
  refine runs_invariant (I := fun w => w.halted = none → Sound I w) hrun (fun _ => h₀)
    fun w₁ e w₂ hsound hstep hc hhalt => ?_
  rcases hsound (step_running hstep) with ⟨φ, ha, hI⟩
  rcases step_passes ha hstep with
    ⟨x, hx, -⟩ | ⟨-, φ', ha', ⟨a, -, rfl, ha, hL⟩ | ⟨i, rpc, ph, L, t, hpass⟩⟩
  · rw [hhalt] at hx
    cases hx
  · exact ⟨φ', ha', hL ▸ hfire ha hI⟩
  · exact ⟨φ', ha', hkeep hc hstep ha ha' hI hpass⟩

omit [Keccak] in
/-- No coroutine is in flight in an idle world. -/
theorem sound_idle {I : (HandlerId → Option Hold) → Ledger → Prop} {hctx : HandlerContext}
    (hI : I (fun _ => none) (Ledger.of hctx)) : Sound I (idle hctx) :=
  ⟨fun _ => none, ⟨trivial, fun _ => trivial, fun _ _ => rfl⟩, hI⟩

end ServerManager
