import Mathlib
import ServerManager.Coroutine.World

/-!
# Families of Worlds

Many systems side by side, of which one at a time takes a step. They share
nothing, so a run of the family is a run of each of them, and what holds along the
runs of one system holds of every member of the family.

## Main definitions

* `stepAt`: One member takes a step.

## Theorems

* `runs_component`: A run of the family is a run of each member.
-/

namespace Coroutine

variable {Id W E : Type*} [DecidableEq Id] {step : W → E → Option W}

/-- One member of a family takes a step. -/
def stepAt (step : W → E → Option W) (ws : Id → W) (e : Id × E) : Option (Id → W) :=
  (step (ws e.1) e.2).map (Function.update ws e.1)

theorem stepAt_component {ws ws' : Id → W} {e : Id × E} (hstep : stepAt step ws e = some ws') :
    step (ws e.1) e.2 = some (ws' e.1) ∧ ∀ i, i ≠ e.1 → ws' i = ws i := by
  rcases Option.map_eq_some_iff.1 hstep with ⟨w, hw, rfl⟩
  refine ⟨?_, fun i hi => Function.update_of_ne hi ..⟩
  rw [Function.update_self]
  exact hw

/-- A run of the family is a run of each member. -/
theorem runs_component {C : (Id → W) → Id × E → (Id → W) → Prop} {D : W → E → W → Prop}
    {ws ws' : Id → W} (hrun : Runs (stepAt step) C ws ws')
    (hCD : ∀ ws e ws', C ws e ws' → D (ws e.1) e.2 (ws' e.1)) (i : Id) :
    Runs step D (ws i) (ws' i) := by
  induction hrun with
  | refl => exact .refl _
  | @tail ws₁ ws₂ e _ hstep hc ih =>
      rcases stepAt_component hstep with ⟨hcomponent, hothers⟩
      by_cases hi : i = e.1
      · subst hi
        exact .tail e.2 ih hcomponent (hCD _ _ _ hc)
      · rw [hothers i hi]
        exact ih

end Coroutine
