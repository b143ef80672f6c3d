import Mathlib

/-!
# Coroutine Programs

Programs that run in segments. A coroutine owns the processor from one
suspension to the next, reads and writes a shared state without being
interrupted, and then yields: it names the operation it waits for and receives
the reply when it is resumed. Between two yields nothing else runs, so the
segment is the unit of atomicity of a whole system of coroutines.

`Prog` is the syntax tree of such a program. Reading and writing the shared
state are `get` and `set`, a suspension is `yield`, and the three ways a
program ends without a value are kept apart: an exception can be caught, a halt
takes the whole process down, and `spin` marks a loop whose bound ran out. A
loop is a recursion on a bound, and a run in which some bound is too small has
no next segment; a statement about every run therefore quantifies over every
bound, and no run of the unbounded loop is lost.

`seg` runs one segment. It is the only place where a program meets a state, so
the interleaving of several coroutines is built on it alone.

## Main definitions

* `Signature`: The state, operations, replies, exceptions and halts.
* `Prog`: The syntax tree of a coroutine.
* `Prog.bind`, `Prog.tryCatch`, `Prog.andFinally`: Sequencing, handlers, and
  scope exit.
* `Landing`: How a segment ends.
* `Prog.seg`: Running one segment.
* `Prog.target`: The coroutine a segment resumes on the spot.
* `Prog.Only`: A program that only yields, and only with some operations.

## Theorems

* `bind_assoc`, `bind_pure`: The monad laws.
* `only_bind`, `only_mono`: `Only` is kept by sequencing, and by allowing more
  exceptions.
-/

namespace Coroutine

/-- What a family of coroutines shares: the state they run on, the operations
    they can wait for with the type of each reply, the exceptions they can
    throw, and the ways the process can end. -/
structure Signature where
  State : Type
  Op : Type
  Reply : Op → Type
  Exn : Type
  Halt : Type
  /-- What a coroutine finds when it is resumed without the reply having come. -/
  blank : (op : Op) → Reply op
  /-- The completion of the operation is an event of its own. -/
  completes : Op → Bool
  /-- The coroutine an operation resumes on the spot. -/
  target : Op → Option Nat
  /-- The process ends because an exception left a coroutine. -/
  escaped : Exn → Halt
  /-- The process ends because a coroutine that is gone was resumed. -/
  dangling : Halt

/-- A coroutine over a signature, as a syntax tree. -/
inductive Prog (S : Signature) (α : Type) : Type
  | pure (a : α)
  | throw (e : S.Exn)
  | halt (x : S.Halt)
  | spin
  | get (k : S.State → Prog S α)
  | set (s : S.State) (k : Prog S α)
  | yield (op : S.Op) (k : S.Reply op → Prog S α)

namespace Prog

variable {S : Signature} {α β γ : Type}

/-- Run `c`, then `f` on its value. -/
def bind : Prog S α → (α → Prog S β) → Prog S β
  | .pure a, f => f a
  | .throw e, _ => .throw e
  | .halt x, _ => .halt x
  | .spin, _ => .spin
  | .get k, f => .get fun s => (k s).bind f
  | .set s k, f => .set s (k.bind f)
  | .yield op k, f => .yield op fun r => (k r).bind f

/-- Run `c`, and `f` on the exception if it throws one. -/
def tryCatch : Prog S α → (S.Exn → Prog S α) → Prog S α
  | .pure a, _ => .pure a
  | .throw e, f => f e
  | .halt x, _ => .halt x
  | .spin, _ => .spin
  | .get k, f => .get fun s => (k s).tryCatch f
  | .set s k, f => .set s (k.tryCatch f)
  | .yield op k, f => .yield op fun r => (k r).tryCatch f

/-- Run `c`, then `d` whether `c` returned or threw: the destructor of an
    object whose scope is `c`. -/
def andFinally : Prog S α → Prog S Unit → Prog S α
  | .pure a, d => d.bind fun _ => .pure a
  | .throw e, d => d.bind fun _ => .throw e
  | .halt x, _ => .halt x
  | .spin, _ => .spin
  | .get k, d => .get fun s => (k s).andFinally d
  | .set s k, d => .set s (k.andFinally d)
  | .yield op k, d => .yield op fun r => (k r).andFinally d

instance : Monad (Prog S) where
  pure := .pure
  bind := .bind

/-- Read a projection of the shared state. -/
def gets (f : S.State → α) : Prog S α := .get fun s => .pure (f s)

/-- Apply a function to the shared state. -/
def modify (f : S.State → S.State) : Prog S Unit := .get fun s => .set (f s) (.pure ())

/-- Wait for an operation and return its reply. -/
def await (op : S.Op) : Prog S (S.Reply op) := .yield op .pure

@[simp] theorem pure_eq (a : α) : (Pure.pure a : Prog S α) = .pure a := rfl

@[simp] theorem bind_eq (c : Prog S α) (f : α → Prog S β) : (c >>= f) = c.bind f := rfl

theorem bind_pure (c : Prog S α) : c.bind .pure = c := by
  induction c with
  | pure a => rfl
  | throw e => rfl
  | halt x => rfl
  | spin => rfl
  | get k ih => simp only [bind, ih]
  | set s k ih => simp only [bind, ih]
  | yield op k ih => simp only [bind, ih]

theorem bind_assoc (c : Prog S α) (f : α → Prog S β) (g : β → Prog S γ) :
    (c.bind f).bind g = c.bind fun a => (f a).bind g := by
  induction c with
  | pure a => rfl
  | throw e => rfl
  | halt x => rfl
  | spin => rfl
  | get k ih => simp only [bind, ih]
  | set s k ih => simp only [bind, ih]
  | yield op k ih => simp only [bind, ih]

end Prog

/-- How a segment ends: the coroutine returned, an exception escaped it, it
    took the process down, its loop bound ran out, or it is parked on an
    operation with what it does once resumed. -/
inductive Landing (S : Signature) (α : Type) : Type
  | done (a : α)
  | raised (e : S.Exn)
  | halted (x : S.Halt)
  | spinning
  | parked (op : S.Op) (k : S.Reply op → Prog S α)

namespace Prog

variable {S : Signature} {α β : Type}

/-- Run a program from a state up to its first yield, or to its end. -/
def seg : Prog S α → S.State → Landing S α × S.State
  | .pure a, s => (.done a, s)
  | .throw e, s => (.raised e, s)
  | .halt x, s => (.halted x, s)
  | .spin, s => (.spinning, s)
  | .get k, s => (k s).seg s
  | .set s' k, _ => k.seg s'
  | .yield op k, s => (.parked op k, s)

/-- The coroutine the next segment resumes on the spot, if it does. -/
def target (c : Prog S α) (s : S.State) : Option Nat :=
  match c.seg s with
  | (.parked op _, _) => S.target op
  | _ => none

/-- The program, run from a state, never writes the shared state, throws only
    exceptions in `exns`, and waits and halts only as `ops` and `halts` allow
    where it does. -/
def Only (ops : S.State → S.Op → Prop) (exns : S.Exn → Prop) (halts : S.State → S.Halt → Prop) :
    Prog S α → S.State → Prop
  | .pure _, _ => True
  | .throw e, _ => exns e
  | .halt x, s => halts s x
  | .spin, _ => True
  | .get k, s => (k s).Only ops exns halts s
  | .set _ _, _ => False
  | .yield op k, s => ops s op ∧ ∀ r s, (k r).Only ops exns halts s

theorem only_bind {ops : S.State → S.Op → Prop} {exns : S.Exn → Prop} {halts : S.State → S.Halt → Prop}
    {c : Prog S α} {f : α → Prog S β} {s : S.State} (hc : c.Only ops exns halts s)
    (hf : ∀ a s, (f a).Only ops exns halts s) : (c.bind f).Only ops exns halts s := by
  induction c generalizing s with
  | pure a => exact hf a s
  | throw e => exact hc
  | halt x => exact hc
  | spin => trivial
  | get k ih => exact ih s hc
  | set s' k ih => exact absurd hc id
  | yield op k ih => exact ⟨hc.1, fun r s => ih r (hc.2 r s)⟩

theorem only_mono {ops : S.State → S.Op → Prop} {exns exns' : S.Exn → Prop}
    {halts : S.State → S.Halt → Prop} {c : Prog S α} {s : S.State}
    (hc : c.Only ops exns halts s) (he : ∀ e, exns e → exns' e) : c.Only ops exns' halts s := by
  induction c generalizing s with
  | pure a => trivial
  | throw e => exact he e hc
  | halt x => exact hc
  | spin => trivial
  | get k ih => exact ih s hc
  | set s' k ih => exact absurd hc id
  | yield op k ih => exact ⟨hc.1, fun r s => ih r (hc.2 r s)⟩

end Prog

end Coroutine
