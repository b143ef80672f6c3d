import ServerManager.Coroutine.Trace

/-!
# Contracts with a History

`Prog.Meets` looks at one operation at a time. When a program must do one thing
after another, a contract has to know what happened before, and when the other
coroutines keep their hands off a part of the state, what they may do depends on
the state that they found. `Prog.Obeys` is the logic with both: `asks`, `Q` and
`E` see the list of all exchanges so far, and the environment is a relation
`rely` between the history, the state in which the program was parked, and the
exchange that follows.

The rule for a part of the program in which only some operations matter is
`obeys_avoids`: the exchanges of that part are skipped, and what remains to be
said of its values can come from the simpler logic.

## Main definitions

* `Prog.TraceIn`: A trace in an environment.
* `Prog.Obeys`: A program keeps to a contract with a history.

## Theorems

* `trace_traceIn`: A trace is one in an environment that allows its exchanges.
* `traceIn_follow`: The trace of a program that is answered.
* `obeys_bind`, `obeys_avoids`, `obeys_of_avoids`: The rules of the logic.
* `meets_iff_obeys`: Contracts without a history are a special case.
* `obeys_traceIn`: What a contract says about a trace.
-/

namespace Coroutine

variable {S : Signature} {α β : Type}

namespace Prog

/-- A trace of a program with a history, in which the environment does only what
    `rely` allows. -/
def TraceIn (rely : List (Exchange S) → S.State → Exchange S → Prop) :
    Prog S α → List (Exchange S) → S.State → List (Exchange S) → Landing S α → S.State → Prop
  | c, _, s, [], l, s' => c.seg s = (l, s')
  | c, h, s, e :: es, l, s' =>
    ∃ k s₁, c.seg s = (.parked e.op k, s₁) ∧ rely h s₁ e ∧
      (k e.reply).TraceIn rely (h ++ [e]) e.state es l s'

/-- The program, run from a state with a history, waits, returns and throws only
    as `asks`, `Q` and `E` allow, in an environment that satisfies `rely`. -/
def Obeys (rely : List (Exchange S) → S.State → Exchange S → Prop)
    (asks : List (Exchange S) → S.State → (op : S.Op) → (S.Reply op → Prog S α) → Prop)
    (Q : List (Exchange S) → α → S.State → Prop) (E : List (Exchange S) → S.Exn → S.State → Prop) :
    Prog S α → List (Exchange S) → S.State → Prop
  | .pure a, h, s => Q h a s
  | .throw e, h, s => E h e s
  | .halt _, _, _ => True
  | .spin, _, _ => True
  | .get k, h, s => (k s).Obeys rely asks Q E h s
  | .set s' k, h, _ => k.Obeys rely asks Q E h s'
  | .yield op k, h, s => asks h s op k ∧
    ∀ r s', rely h s ⟨op, r, s'⟩ → (k r).Obeys rely asks Q E (h ++ [⟨op, r, s'⟩]) s'

end Prog

/-- The same for where a segment ended. -/
def Landing.Obeys
    (asks : List (Exchange S) → S.State → (op : S.Op) → (S.Reply op → Prog S α) → Prop)
    (Q : List (Exchange S) → α → S.State → Prop) (E : List (Exchange S) → S.Exn → S.State → Prop)
    (h : List (Exchange S)) : Landing S α × S.State → Prop
  | (.done a, s) => Q h a s
  | (.raised e, s) => E h e s
  | (.halted _, _) => True
  | (.spinning, _) => True
  | (.parked op k, s) => asks h s op k

namespace Prog

variable {rely : List (Exchange S) → S.State → Exchange S → Prop}
variable {asks : List (Exchange S) → S.State → (op : S.Op) → (S.Reply op → Prog S α) → Prop}
variable {Q : List (Exchange S) → α → S.State → Prop}
variable {E : List (Exchange S) → S.Exn → S.State → Prop}

/-- A trace whose exchanges are allowed whatever came before them. -/
theorem trace_traceIn {c : Prog S α} {h : List (Exchange S)} {s : S.State}
    {es : List (Exchange S)} {l : Landing S α} {s' : S.State} (htrace : c.Trace s es l s')
    (hrely : ∀ e ∈ es, ∀ h s₁, rely h s₁ e) : c.TraceIn rely h s es l s' := by
  induction es generalizing c h s with
  | nil => exact htrace
  | cons e es ih =>
      rcases htrace with ⟨k, s₁, hseg, hrest⟩
      exact ⟨k, s₁, hseg, hrely e (List.mem_cons_self ..) h s₁,
        ih hrest fun e' he' => hrely e' (List.mem_cons_of_mem _ he')⟩

/-- A program followed by another. -/
theorem obeys_bind
    {asks : List (Exchange S) → S.State → (op : S.Op) → (S.Reply op → Prog S β) → Prop}
    {Q : List (Exchange S) → β → S.State → Prop} {c : Prog S α} {f : α → Prog S β}
    {h : List (Exchange S)} {s : S.State} :
    (c.bind f).Obeys rely asks Q E h s ↔
      c.Obeys rely (fun h s op k => asks h s op fun r => (k r).bind f)
        (fun h a s => (f a).Obeys rely asks Q E h s) E h s := by
  induction c generalizing h s with
  | pure a => rfl
  | throw e => rfl
  | halt x => rfl
  | spin => rfl
  | get k ih => exact ih s
  | set s' k ih => exact ih
  | yield op k ih => simp only [bind, Obeys, ih]

/-- A program that avoids the operations that matter, followed by another: its
    exchanges are not about such operations, and what else is known of its
    values is a contract without a history, with an invariant that holds
    whenever the program is parked and when it is resumed. -/
theorem obeys_avoids
    {asks : List (Exchange S) → S.State → (op : S.Op) → (S.Reply op → Prog S β) → Prop}
    {Q : List (Exchange S) → β → S.State → Prop} {kind : S.Op → Bool} {inv : S.State → Prop}
    {Q' : α → S.State → Prop} {E' : S.Exn → S.State → Prop} {c : Prog S α} {f : α → Prog S β}
    {h : List (Exchange S)} {s : S.State} (hc : c.Avoids kind)
    (hmeets : c.Meets inv (fun s _ _ => inv s) Q' E' s)
    (hrely : ∀ h s e, inv s → rely h s e → inv e.state)
    (hasks : ∀ h s op k, kind op = false → asks h s op k) (hE : ∀ h e s, E h e s)
    (hf : ∀ es a s', (∀ e ∈ es, kind e.op = false) → Q' a s' →
      (f a).Obeys rely asks Q E (h ++ es) s') :
    (c.bind f).Obeys rely asks Q E h s := by
  induction c generalizing h s with
  | pure a =>
      have hend := hf [] a s (fun e he => absurd he List.not_mem_nil) hmeets
      rwa [List.append_nil] at hend
  | throw e => exact hE h e s
  | halt x => trivial
  | spin => exact absurd hc id
  | get k ih => exact ih s (hc s) hmeets hf
  | set s' k ih => exact ih hc hmeets hf
  | yield op k ih =>
      refine ⟨hasks h s op _ hc.1, fun r s' hs' => ?_⟩
      refine ih r (hc.2 r) (hmeets.2 r s' (hrely _ _ _ hmeets.1 hs')) fun es a s'' hes ha => ?_
      rw [List.append_assoc, List.singleton_append]
      refine hf _ a s'' (fun e he => ?_) ha
      rcases List.mem_cons.mp he with heq | hmem
      · rw [heq]
        exact hc.1
      · exact hes e hmem

/-- A program that avoids the operations that matter keeps every contract that is
    about nothing else. -/
theorem obeys_of_avoids {kind : S.Op → Bool} {c : Prog S α} {h : List (Exchange S)} {s : S.State}
    (hc : c.Avoids kind) (hasks : ∀ h s op k, kind op = false → asks h s op k) :
    c.Obeys rely asks (fun _ _ _ => True) (fun _ _ _ => True) h s := by
  induction c generalizing h s with
  | pure a => trivial
  | throw e => trivial
  | halt x => trivial
  | spin => trivial
  | get k ih => exact ih s (hc s)
  | set s' k ih => exact ih hc
  | yield op k ih => exact ⟨hasks h s op k hc.1, fun r s' _ => ih r (hc.2 r)⟩

/-- A contract without a history is one that does not look at it. -/
theorem meets_iff_obeys {rely : S.State → Prop}
    {asks : S.State → (op : S.Op) → (S.Reply op → Prog S α) → Prop} {Q : α → S.State → Prop}
    {E : S.Exn → S.State → Prop} {c : Prog S α} (h : List (Exchange S)) {s : S.State} :
    c.Meets rely asks Q E s ↔ c.Obeys (fun _ _ e => rely e.state) (fun _ => asks) (fun _ => Q)
      (fun _ => E) h s := by
  induction c generalizing h s with
  | pure a => rfl
  | throw e => rfl
  | halt x => rfl
  | spin => rfl
  | get k ih => exact ih s h
  | set s' k ih => exact ih h
  | yield op k ih =>
      constructor
      · intro hc
        exact ⟨hc.1, fun r s' hs' => (ih r _).mp (hc.2 r s' hs')⟩
      · intro hc
        exact ⟨hc.1, fun r s' hs' => (ih r _).mpr (hc.2 r s' hs')⟩

theorem obeys_seg {c : Prog S α} {h : List (Exchange S)} {s : S.State}
    (hc : c.Obeys rely asks Q E h s) : Landing.Obeys asks Q E h (c.seg s) := by
  induction c generalizing s with
  | pure a => exact hc
  | throw e => exact hc
  | halt x => trivial
  | spin => trivial
  | get k ih => exact ih s hc
  | set s' k ih => exact ih hc
  | yield op k ih => exact hc.1

/-- A program that keeps to its contract still does after a reply. -/
theorem obeys_answer {c : Prog S α} {h : List (Exchange S)} {s s₁ : S.State} {e : Exchange S}
    {k : S.Reply e.op → Prog S α} (hc : c.Obeys rely asks Q E h s)
    (hseg : c.seg s = (.parked e.op k, s₁)) (hallowed : rely h s₁ e) :
    (k e.reply).Obeys rely asks Q E (h ++ [e]) e.state := by
  induction c generalizing s with
  | pure a => cases hseg
  | throw e => cases hseg
  | halt x => cases hseg
  | spin => cases hseg
  | get k ih => exact ih s hc hseg
  | set s' k ih => exact ih hc hseg
  | yield op k' ih =>
      rcases e with ⟨op', reply, state⟩
      cases hseg
      exact hc.2 reply state hallowed

/-- Where a trace of a program that keeps to its contract ends. -/
theorem obeys_traceIn {c : Prog S α} {h : List (Exchange S)} {s : S.State}
    {es : List (Exchange S)} {l : Landing S α} {s' : S.State} (hc : c.Obeys rely asks Q E h s)
    (htrace : c.TraceIn rely h s es l s') : Landing.Obeys asks Q E (h ++ es) (l, s') := by
  induction es generalizing c h s with
  | nil =>
      have hend := obeys_seg hc
      rw [List.append_nil]
      rwa [show c.seg s = (l, s') from htrace] at hend
  | cons e es ih =>
      rcases htrace with ⟨k, s₁, hseg, hallowed, hrest⟩
      have hend := ih (obeys_answer hc hseg hallowed) hrest
      rwa [List.append_assoc, List.singleton_append] at hend

end Prog

end Coroutine
