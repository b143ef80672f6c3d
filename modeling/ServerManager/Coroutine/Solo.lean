import ServerManager.Coroutine.Views
import ServerManager.Coroutine.World

/-!
# One Worker at a Time

A world in which coroutines come in two kinds. Aides only ever touch the part of
the shared state that is outside a view, and there can be any number of them at
any time. A worker can do what it likes, but there is at most one. In such a
world everything an aide does happens, as far as the worker can see, inside one
of its suspensions, so what was proved of its program alone holds of it in the
world: `Solo` is kept by every step, and once the worker is done its
postcondition holds.

An aide may resume the worker on the spot, at any suspension and without a
reply. To the worker this is the blank reply.

## Main definitions

* `Crew`: A setting with the tags of the aides.
* `Prog.Minds`: A program whose segments leave the view alone.
* `Solo`: At most one worker, which ensures a postcondition.

## Theorems

* `minds_seg`, `after_seg`: What the two say about the end of a segment.
* `solo_land`, `solo_worker`: A segment of the worker.
* `solo_aside`, `solo_aide`: A segment of an aide, with the worker resumed in
  the middle of it or not.
-/

namespace Coroutine

/-- A setting with the tags of the coroutines that leave the view alone. -/
structure Crew (S : Signature) (R : Type) extends Setting S where
  Aide : R → Prop

variable {S : Signature} {R : Type} {α : Type}

namespace Prog

/-- Every segment of the program leaves the view as it found it. -/
def Minds (X : Setting S) (v : X.View) : Prog S α → S.State → Prop
  | .pure _, s => X.view s = v
  | .throw _, s => X.view s = v
  | .halt _, _ => True
  | .spin, _ => True
  | .get k, s => (k s).Minds X v s
  | .set s' k, _ => k.Minds X v s'
  | .yield _ k, s => X.view s = v ∧ ∀ r s', (k r).Minds X (X.view s') s'

variable {X : Setting S} {v : X.View} {s : S.State}

theorem minds_bind {β : Type} {c : Prog S α} {f : α → Prog S β} (hc : c.Minds X v s)
    (hf : ∀ a v s, X.view s = v → (f a).Minds X v s) : (c.bind f).Minds X v s := by
  induction c generalizing v s with
  | pure a => exact hf a v s hc
  | throw e => exact hc
  | halt x => trivial
  | spin => trivial
  | get k ih => exact ih s hc
  | set s' k ih => exact ih hc
  | yield op k ih => exact ⟨hc.1, fun r s' => ih r (hc.2 r s')⟩

theorem minds_tryCatch {c : Prog S α} {f : S.Exn → Prog S α} (hc : c.Minds X v s)
    (hf : ∀ e v s, X.view s = v → (f e).Minds X v s) : (c.tryCatch f).Minds X v s := by
  induction c generalizing v s with
  | pure a => exact hc
  | throw e => exact hf e v s hc
  | halt x => trivial
  | spin => trivial
  | get k ih => exact ih s hc
  | set s' k ih => exact ih hc
  | yield op k ih => exact ⟨hc.1, fun r s' => ih r (hc.2 r s')⟩

end Prog

/-- What `Minds` says about the end of a segment. -/
def Landing.Minds (X : Setting S) (v : X.View) : Landing S α × S.State → Prop
  | (.done _, s) => X.view s = v
  | (.parked _ k, s) => X.view s = v ∧ ∀ r s', (k r).Minds X (X.view s') s'
  | _ => True

theorem minds_seg {X : Setting S} {v : X.View} {c : Prog S α} {s : S.State}
    (hc : c.Minds X v s) : Landing.Minds X v (c.seg s) := by
  induction c generalizing s with
  | pure a => exact hc
  | throw e => trivial
  | halt x => trivial
  | spin => trivial
  | get k ih => exact ih s hc
  | set s' k ih => exact ih hc
  | yield op k ih => exact hc

/-- What `After` says about the end of a segment. -/
def Landing.After (X : Setting S) (Q : α → X.Ghost → X.View → Prop)
    (E : S.Exn → X.Ghost → X.View → Prop) (g : X.Ghost) : Landing S α × S.State → Prop
  | (.done a, s) => Q a g (X.view s)
  | (.raised e, s) => E e g (X.view s)
  | (.parked op k, s) => S.target op = none ∧
      ∀ r g' s', X.Answers op g r g' → X.view s' = X.view s → (k r).After X Q E g' s'
  | _ => True

theorem after_seg {X : Setting S} {Q : α → X.Ghost → X.View → Prop}
    {E : S.Exn → X.Ghost → X.View → Prop} {g : X.Ghost} {c : Prog S α} {s : S.State}
    (hc : c.After X Q E g s) : Landing.After X Q E g (c.seg s) := by
  induction c generalizing s with
  | pure a => exact hc
  | throw e => exact hc
  | halt x => trivial
  | spin => trivial
  | get k ih => exact ih s hc
  | set s' k ih => exact ih hc
  | yield op k ih => exact hc

section Solo

variable (X : Crew S R) (Q : X.Ghost → X.View → Prop)

/-- A parked aide. -/
def Crew.Aside (p : Suspended S R) : Prop :=
  X.Aide p.tag ∧ ∀ r s, (p.k r).Minds X.toSetting (X.view s) s

/-- A parked worker with nothing but `Q` to reach. -/
def Crew.Works (g : X.Ghost) (s : S.State) (p : Suspended S R) : Prop :=
  ¬ X.Aide p.tag ∧ ∀ r g' s', X.Answers p.op g r g' → X.view s' = X.view s →
    (p.k r).After X.toSetting (fun _ => Q) (fun _ _ _ => True) g' s'

/-- The coroutines that are parked are aides, but for one at most: a worker that
    ensures `Q` at its end, and without a worker `Q` holds. -/
structure Solo (w : World S R) (g : X.Ghost) : Prop where
  filed : ∀ k p, w.handlers k = some p → k < w.next
  crew : ((∀ k p, w.handlers k = some p → X.Aside p) ∧ Q g (X.view w.shared)) ∨
    ∃ h p, w.handlers h = some p ∧ X.Works Q g w.shared p ∧
      ∀ k q, k ≠ h → w.handlers k = some q → X.Aside q

variable {X Q} {w w' : World S R} {g : X.Ghost} {h : Nat} {tag : R} {c : Prog S Unit}

/-- Nothing an aide does to the shared state shows. -/
theorem Solo.share (hsolo : Solo X Q w g) {s : S.State} (hs : X.view s = X.view w.shared) :
    Solo X Q { w with shared := s } g := by
  refine ⟨hsolo.filed, ?_⟩
  rcases hsolo.crew with ⟨haides, hQ⟩ | ⟨h, p, hp, ⟨htag, hk⟩, haides⟩
  · left
    refine ⟨haides, ?_⟩
    show Q g (X.view s)
    rw [hs]
    exact hQ
  · right
    exact ⟨h, p, hp, ⟨htag, fun r g' s' hr hs' => hk r g' s' hr (hs'.trans hs)⟩, haides⟩

theorem Solo.markStale (hsolo : Solo X Q w g) (k : Nat) (op : S.Op) :
    Solo X Q (w.markStale k op) g := by
  unfold World.markStale
  split
  · exact ⟨hsolo.filed, hsolo.crew⟩
  · exact hsolo

/-- An aide that is filed, or forgotten, under a name that is not the worker's. -/
theorem Solo.put (hsolo : Solo X Q w g) {p : Option (Suspended S R)} (hh : h < w.next)
    (hfree : ∀ q, w.handlers h = some q → X.Aide q.tag) (hp : ∀ q, p = some q → X.Aside q) :
    Solo X Q (w.put h p) g := by
  have hhandlers : ∀ k q, (w.put h p).handlers k = some q →
      (k = h ∧ p = some q) ∨ (k ≠ h ∧ w.handlers k = some q) := by
    intro k q hq
    by_cases hk : k = h
    · left
      exact ⟨hk, by simpa [World.put, hk] using hq⟩
    · right
      exact ⟨hk, by simpa [World.put, hk] using hq⟩
  refine ⟨fun k q hq => ?_, ?_⟩
  · rcases hhandlers k q hq with ⟨hk, -⟩ | ⟨-, hold⟩
    · show k < w.next
      omega
    · exact hsolo.filed k q hold
  · rcases hsolo.crew with ⟨haides, hQ⟩ | ⟨i, q, hq, hworks, haides⟩
    · left
      refine ⟨fun k q hq => ?_, hQ⟩
      rcases hhandlers k q hq with ⟨-, hnew⟩ | ⟨-, hold⟩
      · exact hp q hnew
      · exact haides k q hold
    · right
      have hih : i ≠ h := by
        rintro rfl
        exact hworks.1 (hfree q hq)
      refine ⟨i, q, by simpa [World.put, hih] using hq, hworks, fun k q' hk hq' => ?_⟩
      rcases hhandlers k q' hq' with ⟨-, hnew⟩ | ⟨-, hold⟩
      · exact hp q' hnew
      · exact haides k q' hk hold

/-- The end of a segment of the worker is filed. -/
theorem solo_land {r : Landing S Unit × S.State}
    (hfiled : ∀ k p, w.handlers k = some p → k < w.next) (hh : h < w.next)
    (haides : ∀ k p, k ≠ h → w.handlers k = some p → X.Aside p) (htag : ¬ X.Aide tag)
    (hr : Landing.After X.toSetting (fun _ => Q) (fun _ _ _ => True) g r)
    (hland : w.land h tag r = some w') : w'.halted ≠ none ∨ Solo X Q w' g := by
  rcases r with ⟨l, s⟩
  have hfiled' : ∀ p k q, (({ w with shared := s } : World S R).put h p).handlers k = some q →
      k < w.next := by
    intro p k q hq
    by_cases hk : k = h
    · omega
    · exact hfiled k q (by simpa [World.put, hk] using hq)
  have haides' : ∀ p k q, k ≠ h → (({ w with shared := s } : World S R).put h p).handlers k =
      some q → X.Aside q := by
    intro p k q hk hq
    exact haides k q hk (by simpa [World.put, hk] using hq)
  cases l with
  | done a =>
      cases hland
      -- the worker is gone, and only aides are left
      refine Or.inr ⟨hfiled' none, Or.inl ⟨fun k q hq => ?_, hr⟩⟩
      have hk : k ≠ h := by
        rintro rfl
        simp [World.put] at hq
      exact haides' none k q hk hq
  | raised e => cases hland; exact Or.inl (by simp)
  | halted x => cases hland; exact Or.inl (by simp)
  | spinning => cases hland
  | parked op k =>
      cases hland
      exact Or.inr ⟨hfiled' _, Or.inr ⟨h, ⟨tag, op, k⟩, by simp [World.put], ⟨htag, hr.2⟩,
        haides' _⟩⟩

/-- The worker runs. -/
theorem solo_worker (hfiled : ∀ k p, w.handlers k = some p → k < w.next) (hh : h < w.next)
    (haides : ∀ k p, k ≠ h → w.handlers k = some p → X.Aside p) (htag : ¬ X.Aide tag)
    (hc : c.After X.toSetting (fun _ => Q) (fun _ _ _ => True) g w.shared)
    (hadv : w.advance h tag c = some w') : w'.halted ≠ none ∨ Solo X Q w' g := by
  have hseg := after_seg hc
  rcases hcs : c.seg w.shared with ⟨l, s⟩
  rw [hcs] at hseg
  rw [World.advance_plain hcs fun op k hl => by subst hl; exact hseg.1] at hadv
  exact solo_land hfiled hh haides htag hseg hadv

/-- The end of a segment of an aide is filed. -/
theorem solo_aside {r : Landing S Unit × S.State} (hsolo : Solo X Q w g) (hh : h < w.next)
    (hfree : ∀ q, w.handlers h = some q → X.Aide q.tag) (htag : X.Aide tag)
    (hr : Landing.Minds X.toSetting (X.view w.shared) r) (hland : w.land h tag r = some w') :
    w'.halted ≠ none ∨ Solo X Q w' g := by
  rcases r with ⟨l, s⟩
  cases l with
  | done a =>
      cases hland
      exact Or.inr ((hsolo.share hr).put hh hfree fun q hq => by cases hq)
  | raised e => cases hland; exact Or.inl (by simp)
  | halted x => cases hland; exact Or.inl (by simp)
  | spinning => cases hland
  | parked op k =>
      cases hland
      refine Or.inr ((hsolo.share hr.1).put hh hfree fun q hq => ?_)
      cases hq
      exact ⟨htag, hr.2⟩

/-- A parked coroutine that is resumed on the spot, in the middle of a segment of
    an aide. -/
theorem solo_resumed {k : Nat} {p : Suspended S R} (hsolo : Solo X Q w g)
    (hp : w.handlers k = some p)
    (hland : w.land k p.tag ((p.k (S.blank p.op)).seg w.shared) = some w') :
    w'.halted ≠ none ∨ Solo X Q w' g := by
  have hk : k < w.next := hsolo.filed k p hp
  have haside : X.Aside p → w'.halted ≠ none ∨ Solo X Q w' g := by
    rintro ⟨htag, hminds⟩
    refine solo_aside hsolo hk (fun q hq => ?_) htag (minds_seg (hminds _ w.shared)) hland
    rw [hp] at hq
    cases hq
    exact htag
  rcases hsolo.crew with ⟨haides, hQ⟩ | ⟨i, q, hq, hworks, haides⟩
  · exact haside (haides k p hp)
  · by_cases hki : k = i
    · -- the worker is resumed, and finds the blank reply
      subst hki
      rw [hp] at hq
      cases hq
      exact solo_land hsolo.filed hk haides hworks.1
        (after_seg (hworks.2 _ _ _ (X.blank _ _) rfl)) hland
    · exact haside (haides k p hki hp)

/-- An aide runs. -/
theorem solo_aide (hsolo : Solo X Q w g) (hh : h < w.next) (hfree : w.handlers h = none)
    (htag : X.Aide tag) (hc : c.Minds X.toSetting (X.view w.shared) w.shared)
    (hadv : w.advance h tag c = some w') : w'.halted ≠ none ∨ Solo X Q w' g := by
  have hseg := minds_seg hc
  have hfree' : ∀ q, w.handlers h = some q → X.Aide q.tag := by
    intro q hq
    simp [hfree] at hq
  rcases hcs : c.seg w.shared with ⟨l, s⟩
  rw [hcs] at hseg
  cases l with
  | parked op k =>
      cases htarget : S.target op with
      | none =>
          rw [World.advance_plain hcs fun op' k' hl => by cases hl; exact htarget] at hadv
          exact solo_aside hsolo hh hfree' htag hseg hadv
      | some i =>
          unfold World.advance at hadv
          simp only [hcs, htarget] at hadv
          have hshare : Solo X Q { w with shared := s } g := hsolo.share hseg.1
          cases hi : w.handlers i with
          | none =>
              simp only [hi, Option.some.injEq] at hadv
              subst hadv
              exact Or.inl (by simp)
          | some p =>
              simp only [hi] at hadv
              cases hland : ({ w with shared := s }.markStale i p.op).land i p.tag
                  ((p.k (S.blank p.op)).seg s) with
              | none => simp [hland] at hadv
              | some w₁ =>
                  simp only [hland] at hadv
                  have hmark := hshare.markStale i p.op
                  have hfield : ({ w with shared := s }.markStale i p.op).handlers = w.handlers :=
                    World.markStale_handlers ..
                  have hstate : ({ w with shared := s }.markStale i p.op).shared = s := by
                    unfold World.markStale
                    split <;> rfl
                  have hhi : h ≠ i := by
                    rintro rfl
                    simp [hfree] at hi
                  have hfiled : ({ w with shared := s }.markStale i p.op).handlers i = some p := by
                    rw [hfield]
                    exact hi
                  have hresumed := solo_resumed hmark hfiled (by rw [hstate]; exact hland)
                  by_cases hhalt : w₁.halted = none
                  · -- the aide goes on after the coroutine it resumed
                    simp only [hhalt, Option.isSome_none, Bool.false_eq_true, if_false] at hadv
                    rcases hresumed with hcon | hsolo₁
                    · exact absurd hhalt hcon
                    · have hnext : w₁.next = w.next :=
                        (World.land_next hland).trans (World.markStale_next ..)
                      refine solo_aside hsolo₁ (by omega) (fun q hq => ?_) htag
                        (minds_seg (hseg.2 _ _)) hadv
                      rcases World.land_tag hland hq with ⟨hcon, -⟩ | hold
                      · exact absurd hcon hhi
                      · rw [hfield, hfree] at hold
                        cases hold
                  · have hsome : w₁.halted.isSome = true := Option.isSome_iff_ne_none.2 hhalt
                    simp only [hsome, if_true, Option.some.injEq] at hadv
                    subst hadv
                    exact Or.inl hhalt
  | done a =>
      rw [World.advance_plain hcs fun op k hl => by cases hl] at hadv
      exact solo_aside hsolo hh hfree' htag hseg hadv
  | raised e =>
      rw [World.advance_plain hcs fun op k hl => by cases hl] at hadv
      exact solo_aside hsolo hh hfree' htag hseg hadv
  | halted x =>
      rw [World.advance_plain hcs fun op k hl => by cases hl] at hadv
      exact solo_aside hsolo hh hfree' htag hseg hadv
  | spinning =>
      rw [World.advance_plain hcs fun op k hl => by cases hl] at hadv
      exact solo_aside hsolo hh hfree' htag hseg hadv

end Solo

end Coroutine
