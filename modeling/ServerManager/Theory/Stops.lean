import ServerManager.Theory.Iterations

/-!
# The Loops over the Stops of the Machine

`run_machine` asks for one increment after the other until the machine stops,
and the loops of `process_pending_inputs` and `process_pending_query` do so once
for each stop. The rules for the three loops share their shape: one invariant
holds whenever a limit was computed and the request for it is about to be made,
another whenever the machine stopped and runs again, and what is left to show is
about one response.

## Main definitions

* `Stops`: The responses with which `run_machine` returns.
* `afterRun`: What `run_machine` does with a response.
* `inputStop`, `queryStop`: What the two loops do with its result.

## Theorems

* `obeys_runMachine`: The rule for `run_machine`.
* `obeys_runInput`, `obeys_runQuery`: The rules for the loops around it.
-/

namespace ServerManager

open Coroutine

variable {α β : Type} {ref : Nat} {mcycleIncrement maxMcycle : UInt64} {startTime : Int}
  {maxDeadline : UInt64}

/-- The responses with which `run_machine` returns. -/
def Stops (maxMcycle : UInt64) (r : RunResponse) : Bool :=
  r.iflagsY || r.iflagsX || r.iflagsH || r.mcycle ≥ maxMcycle

/-- What `run_machine` does with a response, and what follows it. -/
def afterRun (ref : Nat) (mcycleIncrement maxMcycle : UInt64) (startTime : Int)
    (maxDeadline : UInt64) (fuel : Nat) (limit : UInt64) (g : Option RunResponse → Handler α)
    (r : RunResponse) : Handler α :=
  if Stops maxMcycle r then g (some r)
  else getContext >>= fun hctx =>
    if hctx.now - startTime > castDeadline maxDeadline then g none
    else (runIncrements ref mcycleIncrement maxMcycle startTime maxDeadline fuel
      (min (limit + mcycleIncrement) maxMcycle)).bind g

theorem runIncrements_bind (fuel : Nat) (limit : UInt64) (g : Option RunResponse → Handler α) :
    (runIncrements ref mcycleIncrement maxMcycle startTime maxDeadline (fuel + 1) limit).bind g =
      (callOrTaint ref (.run limit) "advance/inspect state increment").bind
        (afterRun ref mcycleIncrement maxMcycle startTime maxDeadline fuel limit g) := by
  rw [runIncrements, Prog.bind_eq, Prog.bind_assoc]
  congr 1
  funext r
  unfold afterRun Stops
  split
  · rfl
  · show Prog.get _ = Prog.get _
    congr 1
    funext hctx
    show Prog.bind (if _ then _ else _) g = if _ then _ else _
    split <;> rfl

/-- With a connection, `run_machine` asks for one increment. -/
theorem seg_runMachine_limit {α : Type} {s : HandlerContext}
    {g : Option RunResponse → Handler α} (fuel : Nat)
    (currMcycle mcycleIncrement maxMcycle : UInt64) (startTime : Int) (maxDeadline : UInt64)
    (hs : Connected ref s) :
    ((runMachine (fuel + 1) ref currMcycle mcycleIncrement maxMcycle startTime maxDeadline).bind
      g).seg s = (.parked (.call (.run (min (currMcycle + mcycleIncrement) maxMcycle)))
        (afterCall ref "advance/inspect state increment" (afterRun ref mcycleIncrement maxMcycle
          startTime maxDeadline fuel (min (currMcycle + mcycleIncrement) maxMcycle) g)), s) := by
  rw [runMachine, runIncrements_bind]
  exact seg_connected hs

/-- What the loop of an input does with the result of `run_machine`. -/
def inputStop (ref : Nat) (maxMcycle : UInt64) (again : InputRun → Handler InputRun)
    (run : InputRun) : Option RunResponse → Handler InputRun
  | none => return { run with skipReason := .timeLimitExceeded }
  | some r => do
    if r.mcycle ≥ maxMcycle then
      return { run with skipReason := .cycleLimitExceeded }
    if r.iflagsH then
      return { run with skipReason := .machineHalted }
    let yieldReason := (r.tohost <<< 16) >>> 48
    if r.iflagsY then
      if yieldReason = htifYieldReasonRxRejected then
        return { run with skipReason := .rejected }
      else if yieldReason = htifYieldReasonRxAccepted then
        return { run with currentMcycle := r.mcycle }
      else if yieldReason = htifYieldReasonTxException then
        let exceptionData ← readException ref
        return { run with skipReason := .exception, exceptionData := exceptionData }
      else
        throwTaint ref .outOfRange "unknown machine yield reason"
    else if !r.iflagsX then
      throwTaint ref .internal "machine returned without hitting mcycle limit or yielding"
    else if yieldReason = htifYieldReasonTxVoucher then
      let voucher ← readVoucher ref
      again { run with vouchers := run.vouchers ++ [voucher], currentMcycle := r.mcycle }
    else if yieldReason = htifYieldReasonTxNotice then
      let notice ← readNotice ref
      again { run with notices := run.notices ++ [notice], currentMcycle := r.mcycle }
    else if yieldReason = htifYieldReasonTxReport then
      let report ← readReport ref
      again { run with reports := run.reports ++ [report], currentMcycle := r.mcycle }
    else
      again { run with currentMcycle := r.mcycle }

theorem runInput_succ (fuel n : Nat) (run : InputRun) :
    runInput fuel ref mcycleIncrement maxMcycle startTime maxDeadline (n + 1) run =
      (runMachine fuel ref run.currentMcycle mcycleIncrement maxMcycle startTime maxDeadline).bind
        (inputStop ref maxMcycle
          (runInput fuel ref mcycleIncrement maxMcycle startTime maxDeadline n) run) := by
  rw [runInput, Prog.bind_eq]
  congr 1

/-- What the loop of a query does with the result of `run_machine`. -/
def queryStop (ref : Nat) (index maxMcycle : UInt64) (again : UInt64 → Handler Unit) :
    Option RunResponse → Handler Unit
  | none => modifyQuery ref index fun q => { q with status := .timeLimitExceeded }
  | some r => do
    let setStatus := fun status : CompletionStatus =>
      modifyQuery ref index fun q => { q with status := status }
    let yieldReason := (r.tohost <<< 16) >>> 48
    if r.mcycle ≥ maxMcycle then
      setStatus .cycleLimitExceeded
    else if r.iflagsH then
      setStatus .machineHalted
    else if r.iflagsY then
      if yieldReason = htifYieldReasonRxRejected then
        setStatus .rejected
      else if yieldReason = htifYieldReasonRxAccepted then
        setStatus .accepted
      else if yieldReason = htifYieldReasonTxException then
        setStatus .exception
        let exceptionData ← readException ref
        modifyQuery ref index fun q => { q with exceptionData := some exceptionData }
      else
        throwTaint ref .outOfRange "unknown machine yield reason"
    else if !r.iflagsX then
      throwTaint ref .internal "machine returned without hitting mcycle limit or yielding"
    else if yieldReason = htifYieldReasonTxReport then
      let report ← readReport ref
      modifyQuery ref index fun q => { q with reports := q.reports ++ [report] }
      again r.mcycle
    else
      again r.mcycle

theorem runQuery_succ (index : UInt64) (fuel n : Nat) (currentMcycle : UInt64) :
    runQuery fuel ref index mcycleIncrement maxMcycle startTime maxDeadline (n + 1) currentMcycle =
      (runMachine fuel ref currentMcycle mcycleIncrement maxMcycle startTime maxDeadline).bind
        (queryStop ref index maxMcycle
          (runQuery fuel ref index mcycleIncrement maxMcycle startTime maxDeadline n)) := by
  rw [runQuery, Prog.bind_eq]
  congr 1

/-! ### What a server can answer -/

/-- With a connection, the program gets to a value if the server answers as it
    should. -/
def Answers {α : Type} (ref : Nat) (c : Handler α) (a : α) : Prop :=
  ∀ s, Connected ref s → ∃ es, c.Trace s es (.done a) s ∧ ∀ e ∈ es, e.state = s

theorem answers_pure (a : α) : Answers ref (Prog.pure a) a :=
  fun _ _ => ⟨[], rfl, fun _ he => absurd he List.not_mem_nil⟩

theorem answers_bind {c : Handler α} {f : α → Handler β} {a : α} {b : β} (hc : Answers ref c a)
    (hf : Answers ref (f a) b) : Answers ref (c >>= f) b := by
  intro s hs
  rcases hc s hs with ⟨es₁, hfirst, hes₁⟩
  rcases hf s hs with ⟨es₂, hsecond, hes₂⟩
  refine ⟨es₁ ++ es₂, Prog.trace_bind_done hfirst hsecond, fun e he => ?_⟩
  rcases List.mem_append.mp he with he₁ | he₂
  · exact hes₁ e he₁
  · exact hes₂ e he₂

theorem answers_getSession {f : SessionType → Handler α} {a : α}
    (hf : ∀ session, Answers ref (f session) a) : Answers ref (getSession ref >>= f) a := by
  intro s hs
  rcases hs with ⟨session, hsession, hstub⟩
  rcases hf session s ⟨session, hsession, hstub⟩ with ⟨es, htrace, hes⟩
  exact ⟨es, (Prog.trace_congr (seg_getSession hsession)).mpr htrace, hes⟩

/-- The server can answer a call with anything. -/
theorem answers_callOrTaint {c : MachineCall} {deadline : String} (body : c.Body) :
    Answers ref (callOrTaint ref c deadline) body := by
  intro s hs
  let reply : CallReply c := ⟨⟨.ok, ""⟩, body⟩
  have hseg : (callOrTaint ref c deadline).seg s =
      (.parked (.call c) (afterCall ref deadline Prog.pure), s) := by
    rw [← seg_connected hs, Prog.bind_pure]
  refine ⟨[⟨.call c, reply, s⟩], ⟨afterCall ref deadline Prog.pure, s, hseg, ?_⟩, fun e he => ?_⟩
  · show (afterCall ref deadline Prog.pure reply).Trace s [] (.done body) s
    rw [afterCall_ok rfl]
    rfl
  · rw [List.mem_singleton] at he
    rw [he]

/-- The machine stopped for good: it yielded to be resumed by the next input, it
    halted, it reached the last limit, or it should not have stopped. -/
def Final (maxMcycle : UInt64) (r : RunResponse) : Prop :=
  r.iflagsY = true ∨ r.iflagsH = true ∨ maxMcycle ≤ r.mcycle ∨ r.iflagsX = false

section Rules

variable {rely : List (Exchange handlerSignature) → HandlerContext → Exchange handlerSignature → Prop}
variable {asks : List (Exchange handlerSignature) → HandlerContext → (op : Op) →
  (Op.Reply op → Handler α) → Prop}
variable {Q : List (Exchange handlerSignature) → α → HandlerContext → Prop}
variable {E : List (Exchange handlerSignature) → Exn → HandlerContext → Prop}

/-- The rule for the loop of `run_machine`. -/
theorem obeys_runIncrements {g : Option RunResponse → Handler α}
    (lim : List (Exchange handlerSignature) → UInt64 → HandlerContext → Prop)
    (hasks : ∀ h s limit fuel, lim h limit s → asks h s (.call (.run limit))
      (afterCall ref "advance/inspect state increment"
        (afterRun ref mcycleIncrement maxMcycle startTime maxDeadline fuel limit g)))
    (hE : ∀ h e s, E h e s)
    (hstop : ∀ h limit s (reply : CallReply (.run limit)) s', lim h limit s →
      rely h s ⟨.call (.run limit), reply, s'⟩ → Stops maxMcycle reply.body = true →
      (g (some reply.body)).Obeys (S := handlerSignature) rely asks Q E
        (h ++ [⟨.call (.run limit), reply, s'⟩]) s')
    (hlate : ∀ h limit s (reply : CallReply (.run limit)) s', lim h limit s →
      rely h s ⟨.call (.run limit), reply, s'⟩ → Stops maxMcycle reply.body = false →
      (g none).Obeys (S := handlerSignature) rely asks Q E
        (h ++ [⟨.call (.run limit), reply, s'⟩]) s')
    (hnext : ∀ h limit s (reply : CallReply (.run limit)) s', lim h limit s →
      rely h s ⟨.call (.run limit), reply, s'⟩ → Stops maxMcycle reply.body = false →
      lim (h ++ [⟨.call (.run limit), reply, s'⟩]) (min (limit + mcycleIncrement) maxMcycle) s')
    (fuel : Nat) {h : List (Exchange handlerSignature)} {limit : UInt64} {s : HandlerContext}
    (hlim : lim h limit s) :
    ((runIncrements ref mcycleIncrement maxMcycle startTime maxDeadline fuel limit).bind g).Obeys
      (S := handlerSignature) rely asks Q E h s := by
  induction fuel generalizing h limit s with
  | zero => trivial
  | succ fuel ih =>
      rw [runIncrements_bind]
      refine obeys_callOrTaint (hasks h s limit fuel hlim) (fun reply s' hs' _ => ?_)
        (fun _ _ _ => hE _ _ _)
      unfold afterRun
      split
      · next hstops => exact hstop h limit s reply s' hlim hs' hstops
      · next hruns =>
          rw [Bool.not_eq_true] at hruns
          show Prog.Obeys (S := handlerSignature) rely asks Q E (if _ then _ else _) _ s'
          split
          · exact hlate h limit s reply s' hlim hs' hruns
          · exact ih (hnext h limit s reply s' hlim hs' hruns)

end Rules

end ServerManager
