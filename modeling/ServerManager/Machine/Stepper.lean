import Mathlib

/-!
# Machines That Run up to a Limit

A deterministic machine that counts its steps and can stop by itself. A run
goes on until the machine stops or the counter reaches a limit. A machine that
stopped may leave that condition when the next run starts, which is what
`enter` does, and a machine that only ran into the limit is not changed by it.

The point of the module is that a run can be cut at any count: `runTo_stopped`
and `runTo_running` are the two ways the first part can end.

## Main definitions

* `Stepper`: The machine.
* `Stepper.advance`: A number of steps, fewer if the machine stops.
* `Stepper.runTo`: A run up to a limit.

## Theorems

* `advance_add`: Steps taken in two parts.
* `count_runTo`, `count_runTo_le`: The counter after a run.
* `runTo_stopped`, `runTo_running`: A run cut in two.
-/

/-- A deterministic machine with a step counter and a condition that stops it. -/
structure Stepper where
  State : Type
  count : State → Nat
  stopped : State → Bool
  step : State → State
  /-- What the start of a run makes of a state. -/
  enter : State → State
  count_step : ∀ m, count (step m) = count m + 1
  count_enter : ∀ m, count (enter m) = count m
  enter_running : ∀ m, stopped m = false → enter m = m

namespace Stepper

variable (M : Stepper)

/-- Take `n` steps, unless the machine stops before. -/
def advance : Nat → M.State → M.State
  | 0, m => m
  | n + 1, m => if M.stopped m then m else advance n (M.step m)

/-- Run until the machine stops or the counter reaches the limit. -/
def runTo (limit : Nat) (m : M.State) : M.State := M.advance (limit - M.count m) (M.enter m)

/-- A machine that has stopped takes no step. -/
theorem advance_stopped {m : M.State} (hstopped : M.stopped m = true) (n : Nat) :
    M.advance n m = m := by
  cases n with
  | zero => rfl
  | succ n => rw [advance, if_pos hstopped]

/-- Steps taken in two parts. -/
theorem advance_add (n k : Nat) (m : M.State) :
    M.advance (n + k) m = M.advance k (M.advance n m) := by
  induction n generalizing m with
  | zero => rw [Nat.zero_add, advance]
  | succ n ih =>
      by_cases hstopped : M.stopped m = true
      · rw [advance_stopped M hstopped, advance_stopped M hstopped, advance_stopped M hstopped]
      · have hsum : n + 1 + k = n + k + 1 := by omega
        rw [hsum, advance, advance, if_neg hstopped, if_neg hstopped, ih]

/-- A machine that is still running has taken all its steps. -/
theorem count_advance (n : Nat) (m : M.State) (hrunning : M.stopped (M.advance n m) = false) :
    M.count (M.advance n m) = M.count m + n := by
  induction n generalizing m with
  | zero => rfl
  | succ n ih =>
      by_cases hstopped : M.stopped m = true
      · rw [advance_stopped M hstopped, hstopped] at hrunning
        cases hrunning
      · rw [advance, if_neg hstopped] at hrunning ⊢
        rw [ih (M.step m) hrunning, M.count_step]
        omega

theorem count_advance_le (n : Nat) (m : M.State) :
    M.count (M.advance n m) ≤ M.count m + n := by
  induction n generalizing m with
  | zero => exact Nat.le_refl _
  | succ n ih =>
      by_cases hstopped : M.stopped m = true
      · rw [advance_stopped M hstopped]
        omega
      · have hrest := ih (M.step m)
        rw [M.count_step] at hrest
        rw [advance, if_neg hstopped]
        omega

/-- A machine that is still running after a run has reached the limit. -/
theorem count_runTo {limit : Nat} {m : M.State} (hle : M.count m ≤ limit)
    (hrunning : M.stopped (M.runTo limit m) = false) : M.count (M.runTo limit m) = limit := by
  rw [runTo] at hrunning ⊢
  rw [count_advance M _ _ hrunning, M.count_enter]
  omega

/-- No run goes beyond the limit. -/
theorem count_runTo_le {limit : Nat} {m : M.State} (hle : M.count m ≤ limit) :
    M.count (M.runTo limit m) ≤ limit := by
  have hcount := M.count_advance_le (limit - M.count m) (M.enter m)
  rw [M.count_enter] at hcount
  rw [runTo]
  omega

/-- A run to a higher limit begins with the run to the lower one. -/
theorem runTo_eq {limit higher : Nat} {m : M.State} (hle : M.count m ≤ limit)
    (hhigher : limit ≤ higher) :
    M.runTo higher m = M.advance (higher - limit) (M.runTo limit m) := by
  have hsum : higher - M.count m = limit - M.count m + (higher - limit) := by omega
  rw [runTo, hsum, advance_add, runTo]

/-- A machine that stopped by itself would have stopped there anyway. -/
theorem runTo_stopped {limit higher : Nat} {m : M.State} (hle : M.count m ≤ limit)
    (hhigher : limit ≤ higher) (hstopped : M.stopped (M.runTo limit m) = true) :
    M.runTo higher m = M.runTo limit m := by
  rw [runTo_eq M hle hhigher, advance_stopped M hstopped]

/-- A machine that ran into the limit goes on as if there had been none. -/
theorem runTo_running {limit higher : Nat} {m : M.State} (hle : M.count m ≤ limit)
    (hhigher : limit ≤ higher) (hrunning : M.stopped (M.runTo limit m) = false) :
    M.runTo higher (M.runTo limit m) = M.runTo higher m := by
  have hcount := M.count_runTo hle hrunning
  rw [runTo_eq M hle hhigher, runTo, M.enter_running _ hrunning, hcount]

end Stepper
