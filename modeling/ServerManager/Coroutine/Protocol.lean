import Mathlib
import ServerManager.Coroutine.World

/-!
# Protocols

What a coroutine can do, said once and independently of its program text. A
`Protocol` gives names to the points at which a coroutine can be parked, its
phases, and a relation for what one segment can do to the shared state on the
way from one phase to the next. A program keeps to the protocol when each of its
segments, from any state another coroutine may have left behind, is one of the
steps of the protocol.

`Prog.Sat` is that statement for a program, with a postcondition for the value
it returns and one for the exception it throws. It carries two states: the one
in which the running segment began and the current one. A segment is only
compared with the protocol where it ends, so the writes inside it need not make
sense one by one.

`Abides` is the same for a whole world, and `abides_advance` is the bridge. Once
all programs keep to a protocol, an event of the world is one, two or three
steps of the protocol, and the proofs of invariants never see a program.

## Main definitions

* `Protocol`: Phases and steps.
* `Prog.Sat`: A program keeps to a protocol.
* `Prog.Steady`: A program that stays inside one kind of segment.
* `Protocol.Abides`: Every parked coroutine of a world keeps to a protocol.
* `Protocol.Advances`: What one event of the world is in the protocol.

## Theorems

* `sat_bind`, `sat_tryCatch`, `sat_andFinally`: The rules for the constructs.
* `steady_of_only`, `steady_bind`: How steady programs are built.
* `sat_seg`: What `Sat` says about one segment.
* `abides_advance`: An event of the world is an event of the protocol.
* `outcome_start`, `outcome_continue`: The same for a new coroutine, and for one
  that is resumed.
-/

namespace Coroutine

/-- The rules a family of coroutines keeps to. -/
structure Protocol (S : Signature) (R : Type) where
  Phase : Type
  /-- The phase of a coroutine that has not run yet. -/
  init : Phase
  /-- What a coroutine may rely on whenever it is resumed. -/
  Live : S.State → Prop
  /-- A coroutine created for `tag` can be parked on `op` in this phase. -/
  At : R → Phase → S.Op → Prop
  /-- What a segment can do, up to the phase in which it parks or its end. -/
  Step : Nat → R → Phase → S.State → Option Phase → S.State → Prop
  /-- How a segment can take the process down, from its first state and the
      state it got to. -/
  Halts : Nat → R → Phase → S.State → S.State → S.Halt → Prop
  live_step : ∀ {h tag ph s t s'}, Step h tag ph s t s' → Live s'

variable {S : Signature} {R : Type} {α β : Type}

namespace Prog

section Sat

variable (P : Protocol S R) (h : Nat) (tag : R)

/-- The program keeps to the protocol when it goes on in phase `ph`, in a
    segment that began in the first state and has come to the second. -/
def Sat (Q : α → P.Phase → S.State → S.State → Prop)
    (E : S.Exn → P.Phase → S.State → S.State → Prop) :
    Prog S α → P.Phase → S.State → S.State → Prop
  | .pure a, ph, s₀, s => Q a ph s₀ s
  | .throw e, ph, s₀, s => E e ph s₀ s
  | .halt x, ph, s₀, s => P.Halts h tag ph s₀ s x
  | .spin, _, _, _ => True
  | .get k, ph, s₀, s => (k s).Sat Q E ph s₀ s
  | .set s' k, ph, s₀, _ => k.Sat Q E ph s₀ s'
  | .yield op k, ph, s₀, s =>
    ∃ ph', P.At tag ph' op ∧ P.Step h tag ph s₀ (some ph') s ∧
      ∀ r s₁, P.Live s₁ → (k r).Sat Q E ph' s₁ s₁

/-- A program that preserves `J` along a segment, re-establishes it after every
    yield, and throws only where `E` allows it. -/
def Steady (J : P.Phase → S.State → S.State → Prop)
    (E : S.Exn → P.Phase → S.State → S.State → Prop) (c : Prog S α) : Prop :=
  ∀ ph s₀ s, J ph s₀ s → c.Sat P h tag (fun _ => J) E ph s₀ s

end Sat

variable {P : Protocol S R} {h : Nat} {tag : R}
variable {Q Q' : α → P.Phase → S.State → S.State → Prop}
variable {E E' : S.Exn → P.Phase → S.State → S.State → Prop}

theorem sat_mono {c : Prog S α} {ph : P.Phase} {s₀ s : S.State}
    (hc : c.Sat P h tag Q E ph s₀ s) (hQ : ∀ a ph s₀ s, Q a ph s₀ s → Q' a ph s₀ s)
    (hE : ∀ e ph s₀ s, E e ph s₀ s → E' e ph s₀ s) : c.Sat P h tag Q' E' ph s₀ s := by
  induction c generalizing ph s₀ s with
  | pure a => exact hQ _ _ _ _ hc
  | throw e => exact hE _ _ _ _ hc
  | halt x => exact hc
  | spin => trivial
  | get k ih => exact ih s hc
  | set s' k ih => exact ih hc
  | yield op k ih =>
      rcases hc with ⟨ph', hat, hstep, hk⟩
      exact ⟨ph', hat, hstep, fun r s₁ hs₁ => ih r (hk r s₁ hs₁)⟩

theorem sat_bind {Q : β → P.Phase → S.State → S.State → Prop} {c : Prog S α}
    {f : α → Prog S β} {ph : P.Phase} {s₀ s : S.State} :
    (c.bind f).Sat P h tag Q E ph s₀ s ↔
      c.Sat P h tag (fun a ph s₀ s => (f a).Sat P h tag Q E ph s₀ s) E ph s₀ s := by
  induction c generalizing ph s₀ s with
  | pure a => rfl
  | throw e => rfl
  | halt x => rfl
  | spin => rfl
  | get k ih => exact ih s
  | set s' k ih => exact ih
  | yield op k ih => simp only [bind, Sat, ih]

theorem sat_tryCatch {c : Prog S α} {f : S.Exn → Prog S α} {ph : P.Phase} {s₀ s : S.State} :
    (c.tryCatch f).Sat P h tag Q E ph s₀ s ↔
      c.Sat P h tag Q (fun e ph s₀ s => (f e).Sat P h tag Q E ph s₀ s) ph s₀ s := by
  induction c generalizing ph s₀ s with
  | pure a => rfl
  | throw e => rfl
  | halt x => rfl
  | spin => rfl
  | get k ih => exact ih s
  | set s' k ih => exact ih
  | yield op k ih => simp only [tryCatch, Sat, ih]

theorem sat_andFinally {c : Prog S α} {d : Prog S Unit} {ph : P.Phase} {s₀ s : S.State} :
    (c.andFinally d).Sat P h tag Q E ph s₀ s ↔
      c.Sat P h tag (fun a ph s₀ s => d.Sat P h tag (fun _ => Q a) E ph s₀ s)
        (fun e ph s₀ s => d.Sat P h tag (fun _ => E e) E ph s₀ s) ph s₀ s := by
  induction c generalizing ph s₀ s with
  | pure a => simp only [andFinally, sat_bind, Sat]
  | throw e => simp only [andFinally, sat_bind, Sat]
  | halt x => rfl
  | spin => rfl
  | get k ih => exact ih s
  | set s' k ih => exact ih
  | yield op k ih => simp only [andFinally, Sat, ih]

section Steady

variable {J : P.Phase → S.State → S.State → Prop}

/-- A program without writes is steady, if every operation it waits for, every
    exception it throws and every way it takes the process down is allowed
    where `J` holds. -/
theorem steady_of_only {ops : S.State → S.Op → Prop} {exns : S.Exn → Prop}
    {halts : S.State → S.Halt → Prop} {c : Prog S α} (hc : ∀ s, c.Only ops exns halts s)
    (hop : ∀ op ph s₀ s, ops s op → J ph s₀ s → ∃ ph', P.At tag ph' op ∧
      P.Step h tag ph s₀ (some ph') s ∧ ∀ s₁, P.Live s₁ → J ph' s₁ s₁)
    (hexn : ∀ e ph s₀ s, exns e → J ph s₀ s → E e ph s₀ s)
    (hhalt : ∀ x ph s₀ s, halts s x → J ph s₀ s → P.Halts h tag ph s₀ s x) :
    c.Steady P h tag J E := by
  intro ph s₀ s hJ
  have hs := hc s
  clear hc
  induction c generalizing ph s₀ s with
  | pure a => exact hJ
  | throw e => exact hexn e ph s₀ s hs hJ
  | halt x => exact hhalt x ph s₀ s hs hJ
  | spin => trivial
  | get k ih => exact ih s ph s₀ s hJ hs
  | set s' k ih => exact absurd hs id
  | yield op k ih =>
      rcases hop op ph s₀ s hs.1 hJ with ⟨ph', hat, hstep, hJ'⟩
      exact ⟨ph', hat, hstep, fun r s₁ hs₁ => ih r ph' s₁ s₁ (hJ' s₁ hs₁) (hs.2 r s₁)⟩

theorem steady_pure (a : α) : (Prog.pure a).Steady P h tag J E := fun _ _ _ hJ => hJ

theorem steady_bind {c : Prog S α} {f : α → Prog S β} (hc : c.Steady P h tag J E)
    (hf : ∀ a, (f a).Steady P h tag J E) : (c.bind f).Steady P h tag J E := by
  intro ph s₀ s hJ
  rw [sat_bind]
  exact sat_mono (hc ph s₀ s hJ) (fun a ph s₀ s => hf a ph s₀ s) fun _ _ _ _ he => he

end Steady

end Prog

/-- What `Sat` says about the end of a segment. -/
def Landing.Sat (P : Protocol S R) (h : Nat) (tag : R)
    (Q : α → P.Phase → S.State → S.State → Prop)
    (E : S.Exn → P.Phase → S.State → S.State → Prop) (ph : P.Phase) (s₀ : S.State) :
    Landing S α × S.State → Prop
  | (.done a, s) => Q a ph s₀ s
  | (.raised e, s) => E e ph s₀ s
  | (.halted x, s) => P.Halts h tag ph s₀ s x
  | (.spinning, _) => True
  | (.parked op k, s) => ∃ ph', P.At tag ph' op ∧ P.Step h tag ph s₀ (some ph') s ∧
      ∀ r s₁, P.Live s₁ → (k r).Sat P h tag Q E ph' s₁ s₁

theorem sat_seg {P : Protocol S R} {h : Nat} {tag : R}
    {Q : α → P.Phase → S.State → S.State → Prop}
    {E : S.Exn → P.Phase → S.State → S.State → Prop} {c : Prog S α} {ph : P.Phase}
    {s₀ s : S.State} (hc : c.Sat P h tag Q E ph s₀ s) :
    Landing.Sat P h tag Q E ph s₀ (c.seg s) := by
  induction c generalizing s with
  | pure a => exact hc
  | throw e => exact hc
  | halt x => exact hc
  | spin => trivial
  | get k ih => exact ih s hc
  | set s' k ih => exact ih hc
  | yield op k ih => exact hc

namespace Protocol

variable (P : Protocol S R)

/-- The program of a coroutine keeps to the protocol up to its end. -/
def Keeps (h : Nat) (tag : R) (c : Prog S Unit) (ph : P.Phase) (s : S.State) : Prop :=
  c.Sat P h tag (fun _ ph s₀ s => P.Step h tag ph s₀ none s)
    (fun e ph s₀ s => P.Halts h tag ph s₀ s (S.escaped e)) ph s s

/-- A parked coroutine is where its phase says, and keeps to the protocol from
    there. -/
def Follows (h : Nat) : Option (Suspended S R) → Option P.Phase → Prop
  | none, none => True
  | some p, some ph => P.At p.tag ph p.op ∧ ∀ r s, P.Live s → P.Keeps h p.tag (p.k r) ph s
  | _, _ => False

/-- Every parked coroutine of the world keeps to the protocol. -/
structure Abides (w : World S R) (φ : Nat → Option P.Phase) : Prop where
  live : P.Live w.shared
  follows : ∀ h, P.Follows h (w.handlers h) (φ h)
  unused : ∀ h, w.next ≤ h → w.handlers h = none

/-- What an event in which `h` runs is in the protocol: one step of `h`, or a
    step of `h` up to a direct resume, a step of the coroutine resumed, and the
    rest of `h`. The coroutine resumed on the spot is `direct`. -/
inductive Advances (h : Nat) (tag : R) (ph : P.Phase) (w : World S R) (φ : Nat → Option P.Phase)
    (direct : Option Nat) : (Nat → Option P.Phase) → S.State → Prop
  | plain {t : Option P.Phase} {s : S.State} (hstep : P.Step h tag ph w.shared t s)
      (hdirect : direct = none) :
      Advances h tag ph w φ direct (Function.update φ h t) s
  | nested {op : S.Op} {ph₁ : P.Phase} {s₁ s₂ s₃ : S.State} {g : Nat} {p : Suspended S R}
      {phg : P.Phase} {tg t : Option P.Phase} (hstep : P.Step h tag ph w.shared (some ph₁) s₁)
      (hat : P.At tag ph₁ op) (htarget : S.target op = some g) (hdirect : direct = some g)
      (hg : w.handlers g = some p) (hφg : φ g = some phg) (hstepg : P.Step g p.tag phg s₁ tg s₂)
      (htail : P.Step h tag ph₁ s₂ t s₃) :
      Advances h tag ph w φ direct (Function.update (Function.update φ g tg) h t) s₃

/-- How an event in which `h` runs can end the process. -/
inductive Breaks (h : Nat) (tag : R) (ph : P.Phase) (w : World S R) (φ : Nat → Option P.Phase)
    (direct : Option Nat) : S.Halt → Prop
  | own {s : S.State} {x : S.Halt} (hhalt : P.Halts h tag ph w.shared s x)
      (hdirect : direct = none) : Breaks h tag ph w φ direct x
  | gone {op : S.Op} {ph₁ : P.Phase} {s₁ : S.State} {g : Nat}
      (hstep : P.Step h tag ph w.shared (some ph₁) s₁) (hat : P.At tag ph₁ op)
      (htarget : S.target op = some g) (hdirect : direct = some g) (hg : w.handlers g = none) :
      Breaks h tag ph w φ direct S.dangling
  | target {op : S.Op} {ph₁ : P.Phase} {s₁ s₂ : S.State} {g : Nat} {p : Suspended S R}
      {phg : P.Phase} {x : S.Halt} (hstep : P.Step h tag ph w.shared (some ph₁) s₁)
      (hat : P.At tag ph₁ op) (htarget : S.target op = some g) (hdirect : direct = some g)
      (hg : w.handlers g = some p) (hφg : φ g = some phg) (hhalt : P.Halts g p.tag phg s₁ s₂ x) :
      Breaks h tag ph w φ direct x
  | tail {op : S.Op} {ph₁ : P.Phase} {s₁ s₂ s₃ : S.State} {g : Nat} {p : Suspended S R}
      {phg : P.Phase} {tg : Option P.Phase} {x : S.Halt}
      (hstep : P.Step h tag ph w.shared (some ph₁) s₁) (hat : P.At tag ph₁ op)
      (htarget : S.target op = some g) (hdirect : direct = some g) (hg : w.handlers g = some p)
      (hφg : φ g = some phg) (hstepg : P.Step g p.tag phg s₁ tg s₂)
      (hhalt : P.Halts h tag ph₁ s₂ s₃ x) :
      Breaks h tag ph w φ direct x

variable {P} {w w' : World S R} {φ : Nat → Option P.Phase} {h : Nat} {tag : R} {ph : P.Phase}

theorem follows_none {p : Option (Suspended S R)} (hp : P.Follows h p none) : p = none := by
  cases p with
  | none => rfl
  | some p => exact absurd hp id

theorem follows_some {p : Suspended S R} {t : Option P.Phase} (hp : P.Follows h (some p) t) :
    ∃ ph, t = some ph ∧ P.At p.tag ph p.op ∧
      ∀ r s, P.Live s → P.Keeps h p.tag (p.k r) ph s := by
  cases t with
  | none => exact absurd hp id
  | some ph => exact ⟨ph, rfl, hp⟩

theorem Abides.phase (ha : P.Abides w φ) {p : Suspended S R} (hp : w.handlers h = some p) :
    ∃ ph, φ h = some ph ∧ P.At p.tag ph p.op ∧
      ∀ r s, P.Live s → P.Keeps h p.tag (p.k r) ph s :=
  follows_some (hp ▸ ha.follows h)

theorem Abides.parked (ha : P.Abides w φ) (hφ : φ h = some ph) :
    ∃ p, w.handlers h = some p ∧ P.At p.tag ph p.op := by
  have hf := ha.follows h
  rw [hφ] at hf
  cases hp : w.handlers h with
  | none => rw [hp] at hf; exact absurd hf id
  | some p => rw [hp] at hf; exact ⟨p, rfl, hf.1⟩

theorem Abides.absent (ha : P.Abides w φ) (hh : w.handlers h = none) : φ h = none := by
  have hf := ha.follows h
  rw [hh] at hf
  cases hφ : φ h with
  | none => rfl
  | some ph => rw [hφ] at hf; exact absurd hf id

/-- Filing what became of coroutine `h` under the phase it got to. -/
theorem abides_put {s : S.State} {p : Option (Suspended S R)} {t : Option P.Phase}
    (ha : P.Abides w φ) (hh : h < w.next) (hs : P.Live s) (hp : P.Follows h p t) :
    P.Abides ({ w with shared := s }.put h p) (Function.update φ h t) := by
  refine ⟨hs, fun i => ?_, fun i hi => ?_⟩
  · by_cases hih : i = h
    · subst hih
      simpa only [World.put, if_true, Function.update_self] using hp
    · simpa only [World.put, if_neg hih, Function.update_of_ne hih] using ha.follows i
  · have hih : i ≠ h := by
      have hi' : w.next ≤ i := hi
      omega
    simpa only [World.put, if_neg hih] using ha.unused i hi

/-- A coroutine that is running is filed nowhere. -/
theorem abides_running (ha : P.Abides w φ) (hh : h < w.next) :
    P.Abides (w.put h none) (Function.update φ h none) :=
  abides_put (s := w.shared) ha hh ha.live trivial

/-- The end of a segment that kept to the protocol is filed by a world that
    abides by it, or it takes the process down. -/
theorem abides_land {s₀ : S.State} {r : Landing S Unit × S.State} (ha : P.Abides w φ)
    (hh : h < w.next)
    (hr : Landing.Sat P h tag (fun _ ph s₀ s => P.Step h tag ph s₀ none s)
      (fun e ph s₀ s => P.Halts h tag ph s₀ s (S.escaped e)) ph s₀ r)
    (hland : w.land h tag r = some w') :
    (∃ s x, w'.halted = some x ∧ P.Halts h tag ph s₀ s x) ∨
      (w'.halted = w.halted ∧ w'.next = w.next ∧
        ∃ t, P.Step h tag ph s₀ t w'.shared ∧ P.Abides w' (Function.update φ h t)) := by
  rcases r with ⟨l, s⟩
  cases l with
  | done a =>
      cases hland
      exact Or.inr ⟨rfl, rfl, none, hr, abides_put ha hh (P.live_step hr) trivial⟩
  | raised e =>
      cases hland
      exact Or.inl ⟨s, S.escaped e, rfl, hr⟩
  | halted x =>
      cases hland
      exact Or.inl ⟨s, x, rfl, hr⟩
  | spinning => cases hland
  | parked op k =>
      cases hland
      rcases hr with ⟨ph', hat, hstep, hk⟩
      exact Or.inr ⟨rfl, rfl, some ph', hstep, abides_put ha hh (P.live_step hstep) ⟨hat, hk⟩⟩

theorem Abides.markStale (ha : P.Abides w φ) (g : Nat) (op : S.Op) :
    P.Abides (w.markStale g op) φ := by
  unfold World.markStale
  split
  · exact ⟨ha.live, ha.follows, ha.unused⟩
  · exact ha

/-- The process ended, or the world that results abides by the protocol and is
    where an event of the protocol leads. -/
def Outcome (P : Protocol S R) (h : Nat) (tag : R) (ph : P.Phase) (w : World S R)
    (φ : Nat → Option P.Phase) (direct : Option Nat) (w' : World S R) : Prop :=
  (∃ x, w'.halted = some x ∧ P.Breaks h tag ph w φ direct x) ∨
    (w'.halted = none ∧ w'.next = w.next ∧
      ∃ φ', P.Abides w' φ' ∧ P.Advances h tag ph w φ direct φ' w'.shared)

/-- A segment that does not end in a direct resume is just filed. -/
theorem outcome_land {direct : Option Nat} {r : Landing S Unit × S.State} (ha : P.Abides w φ)
    (hh : h < w.next) (hw : w.halted = none) (hdirect : direct = none)
    (hr : Landing.Sat P h tag (fun _ ph s₀ s => P.Step h tag ph s₀ none s)
      (fun e ph s₀ s => P.Halts h tag ph s₀ s (S.escaped e)) ph w.shared r)
    (hland : w.land h tag r = some w') : P.Outcome h tag ph w φ direct w' := by
  rcases abides_land ha hh hr hland with ⟨s, x, hx, hhalt⟩ | ⟨hhal, hnext, t, hstep, hab⟩
  · exact Or.inl ⟨x, hx, .own hhalt hdirect⟩
  · exact Or.inr ⟨hhal.trans hw, hnext, _, hab, .plain hstep hdirect⟩

/-- An event of the world is an event of the protocol. The coroutine that runs
    is filed nowhere while it does. -/
theorem abides_advance {c : Prog S Unit} (ha : P.Abides w φ) (hφ : φ h = none)
    (hh : h < w.next) (hw : w.halted = none) (hc : P.Keeps h tag c ph w.shared)
    (hadv : w.advance h tag c = some w') :
    P.Outcome h tag ph w φ (c.target w.shared) w' := by
  have hseg := sat_seg hc
  unfold World.advance at hadv
  rcases hsg : c.seg w.shared with ⟨l, s₁⟩
  rw [hsg] at hadv hseg
  cases l with
  | done a => exact outcome_land ha hh hw (by rw [Prog.target, hsg]) hseg hadv
  | raised e => exact outcome_land ha hh hw (by rw [Prog.target, hsg]) hseg hadv
  | halted x => exact outcome_land ha hh hw (by rw [Prog.target, hsg]) hseg hadv
  | spinning => exact outcome_land ha hh hw (by rw [Prog.target, hsg]) hseg hadv
  | parked op k =>
      cases htarget : S.target op with
      | none =>
          simp only [htarget] at hadv
          exact outcome_land ha hh hw (by rw [Prog.target, hsg]; exact htarget) hseg hadv
      | some g =>
          simp only [htarget] at hadv
          rcases hseg with ⟨ph₁, hat, hstep, hk⟩
          have hdirect : c.target w.shared = some g := by
            unfold Prog.target
            rw [hsg]
            exact htarget
          cases hg : w.handlers g with
          | none =>
              simp only [hg, Option.some.injEq] at hadv
              subst hadv
              exact Or.inl ⟨_, rfl, .gone hstep hat htarget hdirect hg⟩
          | some p =>
              simp only [hg] at hadv
              rcases ha.phase hg with ⟨phg, hφg, hatg, hkg⟩
              have hgn : g < w.next := by
                by_contra hcon
                rw [ha.unused g (by omega)] at hg
                cases hg
              have hgh : g ≠ h := by
                rintro rfl
                rw [hφ] at hφg
                cases hφg
              -- the world in which the coroutine resumed runs
              have hs₁ : P.Live s₁ := P.live_step hstep
              have ha₁ : P.Abides { w with shared := s₁ } φ := ⟨hs₁, ha.follows, ha.unused⟩
              have hm := ha₁.markStale g p.op
              have hmnext : ({ w with shared := s₁ }.markStale g p.op).next = w.next := by
                unfold World.markStale; split <;> rfl
              have hmhal : ({ w with shared := s₁ }.markStale g p.op).halted = none := by
                unfold World.markStale; split <;> exact hw
              have hsegg := sat_seg (hkg (S.blank p.op) s₁ hs₁)
              cases hl : ({ w with shared := s₁ }.markStale g p.op).land g p.tag
                  ((p.k (S.blank p.op)).seg s₁) with
              | none => simp only [hl] at hadv; cases hadv
              | some w₂ =>
                  simp only [hl] at hadv
                  rcases abides_land hm (hmnext.symm ▸ hgn) hsegg hl with
                    ⟨s₂, x, hx, hhalt⟩ | ⟨hhal₂, hnext₂, tg, hstepg, hab₂⟩
                  · rw [hx] at hadv
                    simp only [Option.isSome_some, if_true, Option.some.injEq] at hadv
                    subst hadv
                    exact Or.inl ⟨x, hx, .target hstep hat htarget hdirect hg hφg hhalt⟩
                  · rw [hhal₂, hmhal] at hadv
                    simp only [Option.isSome_none, Bool.false_eq_true, if_false] at hadv
                    have hnw : w₂.next = w.next := hnext₂.trans hmnext
                    have htail := sat_seg (hk (S.blank op) w₂.shared hab₂.live)
                    rcases abides_land hab₂ (hnw.symm ▸ hh) htail hadv with
                      ⟨s₃, x, hx, hhalt⟩ | ⟨hhal₃, hnext₃, t, hstept, hab₃⟩
                    · exact Or.inl ⟨x, hx, .tail hstep hat htarget hdirect hg hφg hstepg hhalt⟩
                    · exact Or.inr ⟨hhal₃.trans (hhal₂.trans hmhal), hnext₃.trans hnw, _, hab₃,
                        .nested hstep hat htarget hdirect hg hφg hstepg hstept⟩

/-- The event in which a new coroutine runs for the first time. -/
theorem outcome_start {c : Nat → Prog S Unit} (ha : P.Abides w φ) (hw : w.halted = none)
    (hc : P.Keeps w.next tag (c w.next) P.init w.shared) (hstart : w.start tag c = some w') :
    φ w.next = none ∧ P.Outcome w.next tag P.init { w with next := w.next + 1 } φ
      ((c w.next).target w.shared) w' := by
  have hφ : φ w.next = none := ha.absent (ha.unused w.next (Nat.le_refl _))
  have ha' : P.Abides { w with next := w.next + 1 } φ :=
    ⟨ha.live, ha.follows, fun i hi => ha.unused i (Nat.le_of_succ_le hi)⟩
  exact ⟨hφ, abides_advance ha' hφ (Nat.lt_succ_self _) hw hc hstart⟩

/-- The event in which a parked coroutine goes on with some reply. -/
theorem outcome_continue {p : Suspended S R} {r : S.Reply p.op} (ha : P.Abides w φ)
    (hw : w.halted = none) (hp : w.handlers h = some p)
    (hadv : (w.put h none).advance h p.tag (p.k r) = some w') :
    ∃ ph, φ h = some ph ∧ P.At p.tag ph p.op ∧
      P.Outcome h p.tag ph (w.put h none) (Function.update φ h none)
        ((p.k r).target w.shared) w' := by
  rcases ha.phase hp with ⟨ph, hφ, hat, hk⟩
  have hh : h < w.next := by
    by_contra hcon
    rw [ha.unused h (by omega)] at hp
    cases hp
  exact ⟨ph, hφ, hat,
    abides_advance (abides_running ha hh) (Function.update_self ..) hh hw (hk r _ ha.live) hadv⟩

end Protocol

end Coroutine
