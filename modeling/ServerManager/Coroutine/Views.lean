import Mathlib
import ServerManager.Coroutine.Program

/-!
# Programs Seen Through a View

A logic of pre- and postconditions for a coroutine that shares its state with
others, when the others are known to leave some part of the state alone. That
part is the view. Between two suspensions a program runs undisturbed, and at a
suspension it finds the view as it left it, so in a statement about views a
suspension is a reply and nothing more: the interference is gone, and the rules
are those of a sequential program with unknown inputs.

Who answers the operations a program waits for is part of the setting as well.
It has a state of its own, the ghost, that no program can touch but every
postcondition can speak about; with a trivial ghost all replies are allowed that
`Answers` does not rule out. The blank reply, which a program finds when it is
resumed out of turn, can never be ruled out and leaves the ghost alone.

A program whose loop bound runs out, or that takes the process down, satisfies
everything: the logic is one of partial correctness.

## Main definitions

* `Setting`: The view, and how operations are answered.
* `Prog.After`: What holds when a program ends, from a state.
* `Prog.Ensures`: The same from every state with a given view.

## Theorems

* `after_bind`, `after_tryCatch`, `after_andFinally`: The rules for the constructs.
* `ensures_bind`, `ensures_tryCatch`, `ensures_andFinally`: The same for views.
* `ensures_get`, `ensures_modify`, `ensures_yield`: The rules for the steps.
* `ensures_only`: A program that writes nothing keeps the view.
-/

namespace Coroutine

/-- What a coroutine can count on: the part of the shared state that nobody else
    writes, and how the operations it waits for are answered. -/
structure Setting (S : Signature) where
  View : Type
  view : S.State → View
  Ghost : Type
  Answers : (op : S.Op) → Ghost → S.Reply op → Ghost → Prop
  blank : ∀ op g, Answers op g (S.blank op) g

variable {S : Signature} {α β γ : Type}

namespace Prog

section After

variable (X : Setting S)

/-- However the operations are answered and whatever the others do meanwhile,
    `Q` holds of the value a program returns and `E` of the exception it throws,
    with the ghost and the view at that point. It resumes nobody on the spot. -/
def After (Q : α → X.Ghost → X.View → Prop) (E : S.Exn → X.Ghost → X.View → Prop) :
    Prog S α → X.Ghost → S.State → Prop
  | .pure a, g, s => Q a g (X.view s)
  | .throw e, g, s => E e g (X.view s)
  | .halt _, _, _ => True
  | .spin, _, _ => True
  | .get k, g, s => (k s).After Q E g s
  | .set s' k, g, _ => k.After Q E g s'
  | .yield op k, g, s => S.target op = none ∧
      ∀ r g' s', X.Answers op g r g' → X.view s' = X.view s → (k r).After Q E g' s'

/-- `After` from every state with view `v`. -/
def Ensures (Q : α → X.Ghost → X.View → Prop) (E : S.Exn → X.Ghost → X.View → Prop)
    (c : Prog S α) (g : X.Ghost) (v : X.View) : Prop :=
  ∀ s, X.view s = v → c.After X Q E g s

end After

variable {X : Setting S} {g : X.Ghost} {v : X.View} {s : S.State}
variable {Q Q' : α → X.Ghost → X.View → Prop} {E E' : S.Exn → X.Ghost → X.View → Prop}

/-! ### The constructs -/

theorem after_mono {c : Prog S α} (hc : c.After X Q E g s) (hQ : ∀ a g v, Q a g v → Q' a g v)
    (hE : ∀ e g v, E e g v → E' e g v) : c.After X Q' E' g s := by
  induction c generalizing g s with
  | pure a => exact hQ _ _ _ hc
  | throw e => exact hE _ _ _ hc
  | halt x => trivial
  | spin => trivial
  | get k ih => exact ih s hc
  | set s' k ih => exact ih hc
  | yield op k ih => exact ⟨hc.1, fun r g' s' hr hs => ih r (hc.2 r g' s' hr hs)⟩

theorem after_bind {Q : β → X.Ghost → X.View → Prop} {c : Prog S α} {f : α → Prog S β}
    (hc : c.After X (fun a => (f a).Ensures X Q E) E g s) : (c.bind f).After X Q E g s := by
  induction c generalizing g s with
  | pure a => exact hc s rfl
  | throw e => exact hc
  | halt x => trivial
  | spin => trivial
  | get k ih => exact ih s hc
  | set s' k ih => exact ih hc
  | yield op k ih => exact ⟨hc.1, fun r g' s' hr hs => ih r (hc.2 r g' s' hr hs)⟩

theorem after_tryCatch {c : Prog S α} {f : S.Exn → Prog S α}
    (hc : c.After X Q (fun e => (f e).Ensures X Q E) g s) : (c.tryCatch f).After X Q E g s := by
  induction c generalizing g s with
  | pure a => exact hc
  | throw e => exact hc s rfl
  | halt x => trivial
  | spin => trivial
  | get k ih => exact ih s hc
  | set s' k ih => exact ih hc
  | yield op k ih => exact ⟨hc.1, fun r g' s' hr hs => ih r (hc.2 r g' s' hr hs)⟩

theorem ensures_pure {a : α} (hQ : Q a g v) : (Prog.pure a : Prog S α).Ensures X Q E g v := by
  rintro s rfl
  exact hQ

theorem ensures_throw {e : S.Exn} (hE : E e g v) :
    (Prog.throw e : Prog S α).Ensures X Q E g v := by
  rintro s rfl
  exact hE

theorem after_andFinally {c : Prog S α} {d : Prog S Unit}
    (hc : c.After X (fun a => d.Ensures X (fun _ => Q a) E)
      (fun e => d.Ensures X (fun _ => E e) E) g s) : (c.andFinally d).After X Q E g s := by
  induction c generalizing g s with
  | pure a => exact after_bind (after_mono (hc s rfl) (fun _ _ _ => ensures_pure) fun _ _ _ he => he)
  | throw e => exact after_bind (after_mono (hc s rfl) (fun _ _ _ => ensures_throw) fun _ _ _ he => he)
  | halt x => trivial
  | spin => trivial
  | get k ih => exact ih s hc
  | set s' k ih => exact ih hc
  | yield op k ih => exact ⟨hc.1, fun r g' s' hr hs => ih r (hc.2 r g' s' hr hs)⟩

theorem ensures_mono {c : Prog S α} (hc : c.Ensures X Q E g v)
    (hQ : ∀ a g v, Q a g v → Q' a g v) (hE : ∀ e g v, E e g v → E' e g v) :
    c.Ensures X Q' E' g v :=
  fun s hs => after_mono (hc s hs) hQ hE

theorem ensures_bind {Q : β → X.Ghost → X.View → Prop} {c : Prog S α} {f : α → Prog S β}
    (hc : c.Ensures X (fun a => (f a).Ensures X Q E) E g v) : (c.bind f).Ensures X Q E g v :=
  fun s hs => after_bind (hc s hs)

theorem ensures_tryCatch {c : Prog S α} {f : S.Exn → Prog S α}
    (hc : c.Ensures X Q (fun e => (f e).Ensures X Q E) g v) : (c.tryCatch f).Ensures X Q E g v :=
  fun s hs => after_tryCatch (hc s hs)

theorem ensures_andFinally {c : Prog S α} {d : Prog S Unit}
    (hc : c.Ensures X (fun a => d.Ensures X (fun _ => Q a) E)
      (fun e => d.Ensures X (fun _ => E e) E) g v) : (c.andFinally d).Ensures X Q E g v :=
  fun s hs => after_andFinally (hc s hs)

/-! ### The steps -/

theorem ensures_halt {x : S.Halt} : (Prog.halt x : Prog S α).Ensures X Q E g v :=
  fun _ _ => trivial

theorem ensures_spin : (Prog.spin : Prog S α).Ensures X Q E g v := fun _ _ => trivial

theorem ensures_get {k : S.State → Prog S α}
    (hk : ∀ s, X.view s = v → (k s).Ensures X Q E g v) : (Prog.get k).Ensures X Q E g v :=
  fun s hs => hk s hs s hs

/-- A write that does to the view what `F` does. -/
theorem ensures_modify {Q : Unit → X.Ghost → X.View → Prop} {f : S.State → S.State}
    {F : X.View → X.View} (hf : ∀ s, X.view (f s) = F (X.view s)) (hQ : Q () g (F v)) :
    (Prog.modify f).Ensures X Q E g v := by
  intro s hs
  have hview : X.view (f s) = F v := (hf s).trans (congrArg F hs)
  show Q () g (X.view (f s))
  rw [hview]
  exact hQ

/-- A suspension is a reply. -/
theorem ensures_yield {op : S.Op} {k : S.Reply op → Prog S α} (htarget : S.target op = none)
    (hk : ∀ r g', X.Answers op g r g' → (k r).Ensures X Q E g' v) :
    (Prog.yield op k).Ensures X Q E g v :=
  fun _ hs => ⟨htarget, fun r g' s' hr hs' => hk r g' hr s' (hs'.trans hs)⟩

/-- A program that writes nothing keeps the view, and whatever its operations
    keep of the ghost. -/
theorem ensures_only {ops : S.State → S.Op → Prop} {exns : S.Exn → Prop}
    {halts : S.State → S.Halt → Prop} {I : X.Ghost → Prop} {c : Prog S α}
    (hc : ∀ s, c.Only ops exns halts s) (hops : ∀ s op, ops s op → S.target op = none ∧
      ∀ g r g', I g → X.Answers op g r g' → I g') (hI : I g) :
    c.Ensures X (fun _ g' v' => I g' ∧ v' = v) (fun e g' v' => exns e ∧ I g' ∧ v' = v) g v := by
  intro s hs
  have hs' := hc s
  clear hc
  induction c generalizing g s with
  | pure a => exact ⟨hI, hs⟩
  | throw e => exact ⟨hs', hI, hs⟩
  | halt x => trivial
  | spin => trivial
  | get k ih => exact ih s hI s hs hs'
  | set s' k ih => exact absurd hs' id
  | yield op k ih =>
      rcases hops s op hs'.1 with ⟨htarget, hkeep⟩
      exact ⟨htarget, fun r g' s₁ hr hs₁ =>
        ih r (hkeep g r g' hI hr) s₁ (hs₁.trans hs) (hs'.2 r s₁)⟩

end Prog

end Coroutine
