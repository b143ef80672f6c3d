import ServerManager.Theory.Calls
import ServerManager.Theory.Quiet

/-!
# Run Requests

Which part of a trace is about running the machine. Of all that a handler does
for one input or one query only the loop over the stops of the machine asks the
server to run; everything before and after it does not, and its exchanges can be
skipped wherever only Run requests count.

## Main definitions

* `Op.isRun`: The operation is a Run request.
* `runRequests`: The Run requests of a list of exchanges, with their responses.
* `runLimit`: The Run request that is under way where a trace ends.
* `runStart`: The state in which the first of them was made.
* `Avoids`, `Runless`: A program that waits for no operation of a kind, such as Run
  requests, and whose loops end.
* `Plain`: The kinds of operations that most functions avoid.
* `Blind`: An invariant that does not depend on check-ins.

## Theorems

* `avoids_bind` and its siblings: The functions that avoid plain kinds.
* `meets_quiet`, `meets_triggerAndWaitCheckin`: Invariants across them.
-/

namespace ServerManager

open Coroutine

/-- The operation is a Run request. -/
def Op.isRun : Op → Bool
  | .call (.run _) => true
  | _ => false

/-- The limit of a Run request and its response. -/
def runExchange : Exchange handlerSignature → Option (UInt64 × RunResponse)
  | ⟨.call (.run limit), reply, _⟩ => some (limit, (show CallReply (.run limit) from reply).body)
  | _ => none

/-- The Run requests of a list of exchanges, with their responses. -/
def runRequests (es : List (Exchange handlerSignature)) : List (UInt64 × RunResponse) :=
  es.filterMap runExchange

theorem runExchange_none {e : Exchange handlerSignature} (he : e.op.isRun = false) :
    runExchange e = none := by
  rcases e with ⟨op, reply, state⟩
  unfold runExchange
  split
  · next heq =>
      cases heq
      cases he
  · rfl

theorem runRequests_append (es₁ es₂ : List (Exchange handlerSignature)) :
    runRequests (es₁ ++ es₂) = runRequests es₁ ++ runRequests es₂ := List.filterMap_append ..

theorem runRequests_run (limit : UInt64) (reply : CallReply (.run limit)) (s : HandlerContext) :
    runRequests [⟨.call (.run limit), reply, s⟩] = [(limit, reply.body)] := rfl

theorem runRequests_none {es : List (Exchange handlerSignature)}
    (hes : ∀ e ∈ es, e.op.isRun = false) : runRequests es = [] :=
  List.filterMap_eq_nil_iff.mpr fun e he => runExchange_none (hes e he)

/-- A program that waits for no operation of a kind, and whose loops end. -/
abbrev Avoids {α : Type} (kind : Op → Bool) (c : Handler α) : Prop :=
  c.Avoids (S := handlerSignature) kind

/-- The operation reads or writes the memory of the machine. -/
def Op.isMemory : Op → Bool
  | .call (.readMemory _ _) => true
  | .call (.writeMemory _ _) => true
  | _ => false

/-- A kind of operations that are Run requests or accesses to the memory. -/
class Plain (kind : Op → Bool) : Prop where
  plain : ∀ op, op.isRun = false → op.isMemory = false → kind op = false

instance : Plain Op.isRun := ⟨fun _ hrun _ => hrun⟩

instance : Plain Op.isMemory := ⟨fun _ _ hmemory => hmemory⟩

/-- The operation is one of them. -/
def Op.isWork (op : Op) : Bool := op.isRun || op.isMemory

instance : Plain Op.isWork := ⟨fun _ hrun hmemory => by rw [Op.isWork, hrun, hmemory]; rfl⟩

section Avoids

variable {α β : Type} {ref : Nat} {index : UInt64} {kind : Op → Bool}

theorem avoids_bind {c : Handler α} {f : α → Handler β} (hc : Avoids kind c)
    (hf : ∀ a, Avoids kind (f a)) : Avoids kind (c >>= f) := Prog.avoids_bind hc hf

theorem avoids_pure (a : α) : Avoids kind (Prog.pure a) := trivial

theorem avoids_ofExcept (x : Except String α) : Avoids kind (ofExcept x) := by
  cases x with
  | error what => trivial
  | ok a => trivial

theorem avoids_getContext : Avoids kind getContext := fun _ => trivial

theorem avoids_getSession : Avoids kind (getSession ref) := by
  intro s
  dsimp only
  split
  · split <;> trivial
  · trivial

theorem avoids_modifySession (f : SessionType → SessionType) : Avoids kind (modifySession ref f) := by
  intro s
  dsimp only
  split
  · split <;> trivial
  · trivial

theorem avoids_getEpoch : Avoids kind (getEpoch ref index) := by
  refine avoids_bind avoids_getSession (fun session => ?_)
  split <;> trivial

theorem avoids_modifyEpoch (f : EpochType → EpochType) : Avoids kind (modifyEpoch ref index f) :=
  avoids_bind avoids_getEpoch fun _ => avoids_modifySession _

theorem avoids_callOrTaint {c : MachineCall} (hc : kind (.call c) = false)
    (deadline : String) : Avoids kind (callOrTaint ref c deadline) := by
  have hcheck : ∀ status, Avoids kind (checkStatusOrTaint ref status deadline) := by
    intro status
    unfold checkStatusOrTaint
    split <;> trivial
  unfold callOrTaint call
  refine avoids_bind (avoids_bind avoids_getSession fun session => ?_)
    (fun reply => avoids_bind (hcheck _) fun _ => trivial)
  split
  · exact ⟨hc, fun reply => trivial⟩
  · trivial

theorem avoids_getHash (bytes : Bytes) : Avoids kind (getHash ref bytes) := by
  unfold getHash
  split <;> trivial

theorem avoids_checkHtifYieldManual (regname : String) (value : UInt64) :
    Avoids kind (checkHtifYieldManual ref regname value) := by
  unfold checkHtifYieldManual
  dsimp only
  split
  · trivial
  · split <;> trivial

variable [Plain kind]

theorem avoids_getRootHash : Avoids kind (getRootHash ref) :=
  avoids_bind (avoids_callOrTaint (Plain.plain _ rfl rfl) _) fun _ => avoids_ofExcept _

theorem avoids_getProof (address log2Size : UInt64) : Avoids kind (getProof ref address log2Size) := by
  unfold getProof
  refine avoids_bind (avoids_callOrTaint (Plain.plain _ rfl rfl) _) (fun proof => ?_)
  generalize getProtoMerkleTreeProof proof = decoded
  exact avoids_ofExcept decoded

theorem avoids_replaceMemoryRanges (configs : List MemoryRangeConfig) :
    Avoids kind (replaceMemoryRanges ref configs) := by
  induction configs with
  | nil => trivial
  | cons config rest ih => exact avoids_bind (avoids_callOrTaint (Plain.plain _ rfl rfl) _) fun _ => ih

theorem avoids_clearMemoryRanges : Avoids kind (clearMemoryRanges ref) :=
  avoids_bind avoids_getSession fun _ => avoids_replaceMemoryRanges _

theorem avoids_clearRxBuffer : Avoids kind (clearRxBuffer ref) :=
  avoids_bind avoids_getSession fun _ => avoids_replaceMemoryRanges _

theorem avoids_snapshot : Avoids kind (snapshot ref) := avoids_callOrTaint (Plain.plain _ rfl rfl) _

theorem avoids_rollback : Avoids kind (rollback ref) := avoids_callOrTaint (Plain.plain _ rfl rfl) _

theorem avoids_triggerAndWaitCheckin (self : HandlerId) {trigger : Handler Unit}
    (htrigger : Avoids kind trigger) : Avoids kind (triggerAndWaitCheckin self ref trigger) := by
  have hcheckServerStub : Avoids kind (checkServerStub ref) := by
    refine avoids_bind avoids_getContext (fun hctx => ?_)
    refine avoids_bind (avoids_modifySession _) (fun _ => ?_)
    split <;> trivial
  have hregister : Avoids kind newCheckinDeadlineHandler := by
    refine avoids_bind avoids_getContext (fun hctx => ?_)
    split
    · trivial
    · exact fun _ => trivial
  refine avoids_bind avoids_getSession (fun _ => ?_)
  refine avoids_bind avoids_getContext (fun hctx => ?_)
  dsimp only
  split
  · trivial
  · refine avoids_bind htrigger (fun _ => ?_)
    refine avoids_bind avoids_getSession (fun _ => ?_)
    refine avoids_bind (fun _ => trivial) (fun _ => ?_)
    refine avoids_bind hregister (fun _ => ?_)
    -- the check-in or the deadline resumed the handler
    refine avoids_bind ⟨Plain.plain _ rfl rfl, fun _ => trivial⟩ (fun _ => ?_)
    refine avoids_bind avoids_getSession (fun session => ?_)
    refine avoids_bind avoids_getContext (fun hctx => ?_)
    split
    · trivial
    · split
      · trivial
      · exact avoids_bind (fun _ => trivial) fun _ => trivial
      · exact avoids_bind (fun _ => trivial) fun _ => hcheckServerStub

theorem avoids_checkHtifYieldAckData (reqid : UInt64) :
    Avoids kind (checkHtifYieldAckData ref reqid) := by
  refine avoids_bind (avoids_callOrTaint (Plain.plain _ rfl rfl) _) (fun value => ?_)
  refine avoids_bind (avoids_checkHtifYieldManual _ _) (fun _ => ?_)
  dsimp only
  split <;> trivial

theorem avoids_setHtifYieldAckData (reqid : UInt64) :
    Avoids kind (setHtifYieldAckData ref reqid) := by
  refine avoids_bind (avoids_callOrTaint (Plain.plain _ rfl rfl) _) (fun value => ?_)
  refine avoids_bind (avoids_checkHtifYieldManual _ _) (fun _ => ?_)
  exact avoids_callOrTaint (Plain.plain _ rfl rfl) _

/-! The functions that read the memory. -/

end Avoids

/-! ### Invariants -/

/-- A quiet program keeps every invariant of the state. -/
theorem meets_quiet {α : Type} {ref : Nat} {c : Handler α} (hc : Quiet ref c)
    {inv : HandlerContext → Prop} {s : HandlerContext} (hs : inv s) :
    c.Meets (S := handlerSignature) inv (fun s _ _ => inv s) (fun _ s => inv s)
      (fun _ s => inv s) s := by
  have honly := hc s
  clear hc
  induction c generalizing s with
  | pure a => exact hs
  | throw e => exact hs
  | halt x => trivial
  | spin => trivial
  | get k ih => exact ih s hs honly
  | set s' k ih => exact absurd honly id
  | yield op k ih => exact ⟨hs, fun r s' hs' => ih r hs' (honly.2 r s')⟩

/-- An invariant that does not depend on what a wait for a check-in changes. -/
structure Blind (ref : Nat) (inv : HandlerContext → Prop) : Prop where
  waiting : ∀ s waiting alarms, inv s → inv { s with waitingCheckin := waiting, alarms := alarms }
  stub : ∀ s session stub, inv s → s.session = some (ref, session) →
    inv { s with session := some (ref, { session with serverStub := stub }) }

/-- The wait for a check-in keeps such an invariant if its trigger does. -/
theorem meets_triggerAndWaitCheckin (self : HandlerId) {ref : Nat} {trigger : Handler Unit}
    {inv : HandlerContext → Prop} (hblind : Blind ref inv)
    (htrigger : ∀ s, inv s → trigger.Meets (S := handlerSignature) inv (fun s _ _ => inv s)
      (fun _ s => inv s) (fun _ s => inv s) s) {s : HandlerContext} (hs : inv s) :
    (triggerAndWaitCheckin self ref trigger).Meets (S := handlerSignature) inv
      (fun s _ _ => inv s) (fun _ s => inv s) (fun _ s => inv s) s := by
  refine meets_getSession (fun _ _ => ?_)
  show Prog.Meets (S := handlerSignature) _ _ _ _ (if s.waitingCheckin.isSome then _ else _) s
  split
  · trivial
  · refine Prog.meets_bind.mpr (Prog.meets_mono (htrigger s hs) (fun _ _ _ h => h) ?_ fun _ _ h => h)
    intro _ s₁ hs₁
    refine meets_getSession (fun _ _ => ?_)
    refine ⟨hblind.waiting s₁ _ _ hs₁, fun _ s₂ hs₂ => ?_⟩
    refine meets_getSession (fun session hsession => meets_getContext ?_)
    split
    · trivial
    · next cctx _ =>
        split
        · trivial
        · exact hblind.waiting s₂ none (cancelAlarm s₂.alarms cctx.alarm) hs₂
        · -- The stub is made anew for the server that checked in.
          have herased := hblind.waiting s₂ none (cancelAlarm s₂.alarms cctx.alarm) hs₂
          refine meets_modifySession (fun session hsession => ?_)
          have hstub := hblind.stub _ session s₂.newStub herased hsession
          split <;> exact hstub

end ServerManager
