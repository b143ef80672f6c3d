import ServerManager.Coroutine.Program

/-!
# Worlds of Coroutines

Several coroutines over one shared state, at most one of them running. A
`World` records the state, what every suspended coroutine waits for and what it
does next, and the completions that belong to operations nobody waits for any
more. `resume` runs one segment of one coroutine.

A coroutine can resume another on the spot. The segment of the other then runs
inside its own, and its own continues afterwards; `advance` plays both. A
coroutine can also be resumed although the operation it waits for is not
complete. It then goes on with a blank reply, and the completion that arrives
later is stale.

`Runs` is reachability under a side condition on the steps. Every statement of
the form "in every run whose steps satisfy the condition, the property holds in
every state reached" is an instance, and `runs_invariant` is how all of them
are proved.

## Main definitions

* `Suspended`: A coroutine that is parked.
* `World`: All coroutines and the shared state.
* `World.land`: Filing the end of a segment.
* `World.advance`, `World.start`, `World.resume`: Running one segment.
* `Runs`: Runs whose steps satisfy a condition.
* `play`: A run given by its events.

## Theorems

* `land_next`, `advance_next`: Only `start` creates a coroutine.
* `runs_invariant`: An invariant of the steps is an invariant of the runs.
* `runs_trans`: Runs compose.
* `runs_of_play`, `exists_run`: Played events are a run.
-/

namespace Coroutine

/-- A parked coroutine: what it was created for, the operation it waits for,
    and what it does with the reply. -/
structure Suspended (S : Signature) (R : Type) where
  tag : R
  op : S.Op
  k : S.Reply op → Prog S Unit

/-- The shared state with every parked coroutine. -/
structure World (S : Signature) (R : Type) where
  shared : S.State
  handlers : Nat → Option (Suspended S R)
  /-- The name of the next coroutine. -/
  next : Nat
  /-- Coroutines that went on without the completion they had asked for. -/
  stale : List Nat
  halted : Option S.Halt

namespace World

variable {S : Signature} {R : Type}

/-- File a coroutine under its name, or forget it. -/
def put (w : World S R) (h : Nat) (p : Option (Suspended S R)) : World S R :=
  { w with handlers := fun i => if i = h then p else w.handlers i }

/-- File the end of a segment of coroutine `h`. There is no result when a loop
    bound was too small for the segment. -/
def land (w : World S R) (h : Nat) (tag : R) :
    Landing S Unit × S.State → Option (World S R)
  | (.done _, s) => some ({ w with shared := s }.put h none)
  | (.raised e, s) => some { w with shared := s, halted := some (S.escaped e) }
  | (.halted x, s) => some { w with shared := s, halted := some x }
  | (.spinning, _) => none
  | (.parked op k, s) => some ({ w with shared := s }.put h (some ⟨tag, op, k⟩))

/-- Remember a completion that nobody will wait for. -/
def markStale (w : World S R) (h : Nat) (op : S.Op) : World S R :=
  if S.completes op then { w with stale := h :: w.stale } else w

/-- Run a segment of coroutine `h`, and inside it the segment of a coroutine it
    resumes on the spot. -/
def advance (w : World S R) (h : Nat) (tag : R) (c : Prog S Unit) : Option (World S R) :=
  match c.seg w.shared with
  | (.parked op k, s) =>
    match S.target op with
    | none => w.land h tag (.parked op k, s)
    | some g =>
      match w.handlers g with
      | none => some { w with shared := s, halted := some S.dangling }
      | some p =>
        match ({ w with shared := s }.markStale g p.op).land g p.tag
            ((p.k (S.blank p.op)).seg s) with
        | none => none
        | some w' =>
          if w'.halted.isSome then some w'
          else w'.land h tag ((k (S.blank op)).seg w'.shared)
  | r => w.land h tag r

/-- Create a coroutine and run its first segment. -/
def start (w : World S R) (tag : R) (c : Nat → Prog S Unit) : Option (World S R) :=
  { w with next := w.next + 1 }.advance w.next tag (c w.next)

/-- Resume a coroutine with the reply it waits for. A coroutine that runs is
    not parked: resuming it once more would be resuming one that is gone. -/
def resume (w : World S R) (h : Nat) (reply : (op : S.Op) → S.Reply op) : Option (World S R) :=
  match w.handlers h with
  | none => some { w with halted := some S.dangling }
  | some p => (w.put h none).advance h p.tag (p.k (reply p.op))

/-- Resume a coroutine whatever it waits for. -/
def resumeBlank (w : World S R) (h : Nat) : Option (World S R) :=
  match w.handlers h with
  | none => some { w with halted := some S.dangling }
  | some p => ((w.markStale h p.op).put h none).advance h p.tag (p.k (S.blank p.op))

theorem markStale_next (w : World S R) (h : Nat) (op : S.Op) : (w.markStale h op).next = w.next := by
  unfold markStale
  split
  · rfl
  · rfl

/-- Filing a segment creates no coroutine. -/
theorem land_next {w w' : World S R} {h : Nat} {tag : R} {r : Landing S Unit × S.State}
    (hland : w.land h tag r = some w') : w'.next = w.next := by
  rcases r with ⟨l, s⟩
  cases l with
  | spinning => cases hland
  | _ => cases hland; rfl

/-- A segment that resumes nobody is just filed. -/
theorem advance_plain {w : World S R} {h : Nat} {tag : R} {c : Prog S Unit} {l : Landing S Unit}
    {s : S.State} (hseg : c.seg w.shared = (l, s))
    (htarget : ∀ op k, l = .parked op k → S.target op = none) :
    w.advance h tag c = w.land h tag (l, s) := by
  unfold advance
  rw [hseg]
  cases l with
  | parked op k =>
      dsimp only
      rw [htarget op k rfl]
  | _ => rfl

theorem advance_next {w w' : World S R} {h : Nat} {tag : R} {c : Prog S Unit}
    (hadv : w.advance h tag c = some w') : w'.next = w.next := by
  unfold advance at hadv
  split at hadv
  · split at hadv
    · exact land_next hadv
    · split at hadv
      · cases hadv
        rfl
      · split at hadv
        · cases hadv
        · next hland =>
            have hnext := (land_next hland).trans (markStale_next ..)
            split at hadv
            · cases hadv
              exact hnext
            · exact (land_next hadv).trans hnext
  · exact land_next hadv

/-- A coroutine keeps the tag it was created with. -/
theorem land_tag {w w' : World S R} {h k : Nat} {tag : R} {r : Landing S Unit × S.State}
    {p : Suspended S R} (hland : w.land h tag r = some w') (hp : w'.handlers k = some p) :
    (k = h ∧ p.tag = tag) ∨ w.handlers k = some p := by
  have hput : ∀ {s : S.State} {q : Option (Suspended S R)},
      ({ w with shared := s }.put h q).handlers k = some p → (k = h ∧ q = some p) ∨
        w.handlers k = some p := by
    intro s q hq
    by_cases hk : k = h
    · exact Or.inl ⟨hk, (if_pos hk).symm.trans hq⟩
    · exact Or.inr ((if_neg hk).symm.trans hq)
  rcases r with ⟨l, s⟩
  cases l with
  | done a =>
      cases hland
      rcases hput hp with ⟨-, hnone⟩ | hold
      · cases hnone
      · exact Or.inr hold
  | raised e => cases hland; exact Or.inr hp
  | halted x => cases hland; exact Or.inr hp
  | spinning => cases hland
  | parked op c =>
      cases hland
      rcases hput hp with ⟨hk, hq⟩ | hold
      · cases hq
        exact Or.inl ⟨hk, rfl⟩
      · exact Or.inr hold

theorem markStale_handlers (w : World S R) (h : Nat) (op : S.Op) :
    (w.markStale h op).handlers = w.handlers := by
  unfold markStale
  split
  · rfl
  · rfl

theorem advance_tag {w w' : World S R} {h k : Nat} {tag : R} {c : Prog S Unit} {p : Suspended S R}
    (hadv : w.advance h tag c = some w') (hp : w'.handlers k = some p) :
    (k = h ∧ p.tag = tag) ∨ ∃ q, w.handlers k = some q ∧ q.tag = p.tag := by
  have hself : ∀ {p : Suspended S R}, (k = h ∧ p.tag = tag) ∨ w.handlers k = some p →
      (k = h ∧ p.tag = tag) ∨ ∃ q, w.handlers k = some q ∧ q.tag = p.tag := by
    rintro p (hnew | hold)
    · exact Or.inl hnew
    · exact Or.inr ⟨p, hold, rfl⟩
  unfold advance at hadv
  split at hadv
  · split at hadv
    · exact hself (land_tag hadv hp)
    · next g htarget =>
      split at hadv
      · cases hadv
        exact Or.inr ⟨p, hp, rfl⟩
      · next q hq =>
        split at hadv
        · cases hadv
        · next w₁ hland =>
            -- the coroutine that was resumed keeps its tag as well
            have hbefore : ∀ {p : Suspended S R}, w₁.handlers k = some p →
                ∃ q, w.handlers k = some q ∧ q.tag = p.tag := by
              intro p hp
              rcases land_tag hland hp with ⟨rfl, htag⟩ | hold
              · exact ⟨q, hq, htag.symm⟩
              · rw [markStale_handlers] at hold
                exact ⟨p, hold, rfl⟩
            split at hadv
            · cases hadv
              exact Or.inr (hbefore hp)
            · rcases land_tag hadv hp with hnew | hold
              · exact Or.inl hnew
              · exact Or.inr (hbefore hold)
  · exact hself (land_tag hadv hp)

end World

/-- Runs of a step function in which every step satisfies a condition. -/
inductive Runs {W E : Type*} (step : W → E → Option W) (C : W → E → W → Prop) : W → W → Prop
  | refl (w : W) : Runs step C w w
  | tail {w w₁ w₂ : W} (e : E) : Runs step C w w₁ → step w₁ e = some w₂ → C w₁ e w₂ →
      Runs step C w w₂

section Runs

variable {W E : Type*} {step : W → E → Option W} {C : W → E → W → Prop}

/-- What every step keeps, every run keeps. -/
theorem runs_invariant {I : W → Prop} {w w' : W} (hrun : Runs step C w w') (h0 : I w)
    (hstep : ∀ w₁ e w₂, I w₁ → step w₁ e = some w₂ → C w₁ e w₂ → I w₂) : I w' := by
  induction hrun with
  | refl => exact h0
  | tail e _ hs hc ih => exact hstep _ e _ ih hs hc

theorem runs_trans {w₁ w₂ w₃ : W} (h₁ : Runs step C w₁ w₂) (h₂ : Runs step C w₂ w₃) :
    Runs step C w₁ w₃ := by
  induction h₂ with
  | refl => exact h₁
  | tail e _ hs hc ih => exact .tail e ih hs hc

/-- Play a list of events, as long as each step passes a test. -/
def play (step : W → E → Option W) (test : W → E → W → Bool) : W → List E → Option W
  | w, [] => some w
  | w, e :: es => (step w e).bind fun w' => if test w e w' then play step test w' es else none

/-- Played events are a run, if the test implies the condition. -/
theorem runs_of_play {test : W → E → W → Bool} (htest : ∀ w e w', test w e w' = true → C w e w')
    {es : List E} {w w' : W} (hplay : play step test w es = some w') : Runs step C w w' := by
  induction es generalizing w with
  | nil =>
      cases hplay
      exact .refl _
  | cons e es ih =>
      obtain ⟨w₁, hstep, hrest⟩ := Option.bind_eq_some_iff.1 hplay
      by_cases hpass : test w e w₁ = true
      · rw [if_pos hpass] at hrest
        exact runs_trans (.tail e (.refl w) hstep (htest w e w₁ hpass)) (ih hrest)
      · rw [if_neg hpass] at hrest
        cases hrest

/-- A run to a world that passes a last test, from playing it. -/
theorem exists_run (test : W → E → W → Bool) (es : List E) {last : W → Bool} {w : W}
    (htest : ∀ w e w', test w e w' = true → C w e w') (hplay : (play step test w es).any last = true) :
    ∃ w', Runs step C w w' ∧ last w' = true := by
  obtain ⟨w', hw', hlast⟩ := (Option.any_eq_true ..).1 hplay
  exact ⟨w', runs_of_play htest hw', hlast⟩

end Runs

end Coroutine
