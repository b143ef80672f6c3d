import ServerManager.Coroutine.Program
import ServerManager.Core.Process

/-!
# Quiet Programs

Most of the functions that talk to the machine server are quiet: they write
nothing, look at no epoch, wait only for calls, and throw only exceptions that
taint the session. As long as the session they have a reference to is there, the
only way for them to take the process down is a stub that could not be made.
Quiet programs compose, so one line a function is enough.

## Main definitions

* `Valid`: The session a reference was captured for is there.
* `MachineCall.triggers`: The calls that make the server check in.
* `Fails`: The exceptions that taint the session.
* `Calls`, `Loses`: The calls such a program makes, and how it can end the process.
* `Quiet`: Programs that only make calls.

## Theorems

* `quiet_bind` and its siblings: The functions that are quiet.
-/

namespace ServerManager

open Coroutine

/-- The session of a generation is there. -/
def Valid (ref : Nat) (hctx : HandlerContext) : Prop :=
  ∃ session, hctx.session = some (ref, session)

/-- The server checks in again after a snapshot or a rollback. -/
def MachineCall.triggers : MachineCall → Bool
  | .snapshot | .rollback => true
  | _ => false

/-- The exceptions that taint the session. -/
inductive Fails (ref : Nat) : Exn → Prop
  | taint (status : Status) : Fails ref (.taintSession ref status)
  | exception (what : String) : Fails ref (.stdException what)

/-- The calls a program can make through a reference to the session: those that
    trigger no check-in, while the session is there. -/
def Calls (ref : Nat) (s : HandlerContext) (op : Op) : Prop :=
  ∃ c : MachineCall, op = .call c ∧ c.triggers = false ∧ Valid ref s

/-- How such a program can take the process down. -/
def Loses (ref : Nat) (s : HandlerContext) (x : Halt) : Prop :=
  x = .nullStub ∨ (x = .sessionErased ∧ ¬ Valid ref s)

/-- A program that writes nothing, waits only for calls that trigger no
    check-in, throws only exceptions that taint the session, and as long as the
    session is there does not lose it. -/
def Quiet {α : Type} (ref : Nat) (c : Handler α) : Prop :=
  ∀ s, Prog.Only (S := handlerSignature) (Calls ref) (Fails ref) (Loses ref) c s

section Quiet

variable {α β : Type} {ref : Nat}

theorem quiet_bind {c : Handler α} {f : α → Handler β} (hc : Quiet ref c)
    (hf : ∀ a, Quiet ref (f a)) : Quiet ref (c >>= f) :=
  fun s => Prog.only_bind (hc s) hf

theorem quiet_pure (a : α) : Quiet ref (Prog.pure a) := fun _ => trivial

theorem quiet_spin : Quiet ref (Prog.spin : Handler α) := fun _ => trivial

theorem quiet_throwTaint (code : StatusCode) (message : String) :
    Quiet ref (throwTaint ref code message : Handler α) := fun _ => Fails.taint _

theorem quiet_ofExcept (x : Except String α) : Quiet ref (ofExcept x) := by
  cases x with
  | error what => exact fun _ => Fails.exception what
  | ok a => exact quiet_pure a

/-- Whatever follows the reading of the session happens while it is there. -/
theorem only_getSession {exns : Exn → Prop} {f : SessionType → Handler α} {s : HandlerContext}
    (hf : ∀ session, s.session = some (ref, session) →
      Prog.Only (S := handlerSignature) (Calls ref) exns (Loses ref) (f session) s) :
    Prog.Only (S := handlerSignature) (Calls ref) exns (Loses ref) (getSession ref >>= f) s := by
  simp only [getSession, Prog.bind_eq, Prog.bind, Prog.Only]
  split
  · next generation session hs =>
      split
      · next heq =>
          subst heq
          exact hf session hs
      · next hne =>
          refine Or.inr ⟨rfl, fun hvalid => hne ?_⟩
          rcases hvalid with ⟨session', hs'⟩
          rw [hs] at hs'
          cases hs'
          rfl
  · next hs =>
      refine Or.inr ⟨rfl, fun hvalid => ?_⟩
      rcases hvalid with ⟨session', hs'⟩
      rw [hs] at hs'
      cases hs'

theorem quiet_getSession : Quiet ref (getSession ref) := by
  intro s
  have hread : Prog.Only (S := handlerSignature) (Calls ref) (Fails ref) (Loses ref)
      (getSession ref >>= Prog.pure) s := only_getSession fun _ _ => trivial
  rwa [Prog.bind_eq, Prog.bind_pure] at hread

/-- A call of either kind, with the check of its status. -/
theorem only_call {exns : Exn → Prop} {c : MachineCall} (hc : c.triggers = false)
    (check : Status → Handler Unit) (hcheck : ∀ status s,
      Prog.Only (S := handlerSignature) (Calls ref) exns (Loses ref) (check status) s)
    (s : HandlerContext) :
    Prog.Only (S := handlerSignature) (Calls ref) exns (Loses ref) (do
      let reply ← call ref c
      check reply.status
      return reply.body) s := by
  refine Prog.only_bind (only_getSession fun session hs => ?_) fun reply s =>
    Prog.only_bind (hcheck _ s) fun _ _ => trivial
  split
  · exact ⟨⟨c, rfl, hc, session, hs⟩, fun _ _ => trivial⟩
  · exact Or.inl rfl

theorem quiet_getContext : Quiet ref getContext := fun _ => trivial

theorem quiet_callOrTaint {c : MachineCall} (hc : c.triggers = false) (deadline : String) :
    Quiet ref (callOrTaint ref c deadline) := by
  refine only_call hc (fun status => checkStatusOrTaint ref status deadline) fun status s => ?_
  unfold checkStatusOrTaint
  split
  · trivial
  · exact Fails.taint _

theorem quiet_resetIflagsY : Quiet ref (resetIflagsY ref) := quiet_callOrTaint rfl _

theorem quiet_getRootHash : Quiet ref (getRootHash ref) :=
  quiet_bind (quiet_callOrTaint rfl _) fun _ => quiet_ofExcept _

theorem quiet_getProof (address log2Size : UInt64) : Quiet ref (getProof ref address log2Size) := by
  refine quiet_bind (quiet_callOrTaint rfl _) fun proof => ?_
  generalize getProtoMerkleTreeProof proof = decoded
  exact quiet_ofExcept decoded

theorem quiet_getHash (bytes : Bytes) : Quiet ref (getHash ref bytes) := by
  unfold getHash
  split
  · exact quiet_pure _
  · exact quiet_throwTaint _ _

theorem quiet_getEvmAddress (bytes : Bytes) : Quiet ref (getEvmAddress ref bytes) := by
  unfold getEvmAddress
  split
  · exact quiet_pure _
  · exact quiet_throwTaint _ _

theorem quiet_getPayloadLength (bytes : Bytes) : Quiet ref (getPayloadLength ref bytes) := by
  unfold getPayloadLength
  split
  · exact quiet_pure _
  · exact quiet_throwTaint _ _

theorem quiet_checkHtifYieldManual (regname : String) (value : UInt64) :
    Quiet ref (checkHtifYieldManual ref regname value) := by
  unfold checkHtifYieldManual
  dsimp only
  split
  · exact quiet_throwTaint _ _
  · split
    · exact quiet_throwTaint _ _
    · exact quiet_pure _

theorem quiet_setHtifYieldAckData (reqid : UInt64) : Quiet ref (setHtifYieldAckData ref reqid) :=
  quiet_bind (quiet_callOrTaint rfl _) fun _ =>
    quiet_bind (quiet_checkHtifYieldManual _ _) fun _ => quiet_callOrTaint rfl _

theorem quiet_checkHtifYieldAckData (reqid : UInt64) : Quiet ref (checkHtifYieldAckData ref reqid) := by
  refine quiet_bind (quiet_callOrTaint rfl _) fun value =>
    quiet_bind (quiet_checkHtifYieldManual _ _) fun _ => ?_
  dsimp only
  split
  · exact quiet_throwTaint _ _
  · exact quiet_pure _

theorem quiet_replaceMemoryRanges (configs : List MemoryRangeConfig) :
    Quiet ref (replaceMemoryRanges ref configs) := by
  induction configs with
  | nil => exact quiet_pure _
  | cons config rest ih => exact quiet_bind (quiet_callOrTaint rfl _) fun _ => ih

theorem quiet_clearMemoryRanges : Quiet ref (clearMemoryRanges ref) :=
  quiet_bind quiet_getSession fun _ => quiet_replaceMemoryRanges _

theorem quiet_clearRxBuffer : Quiet ref (clearRxBuffer ref) :=
  quiet_bind quiet_getSession fun _ => quiet_replaceMemoryRanges _

theorem quiet_writeMemoryRange (data : Bytes) (drive : MemoryRangeConfig) :
    Quiet ref (writeMemoryRange ref data drive) := quiet_callOrTaint rfl _

theorem quiet_writeEvmAbiString (payload : Bytes) (drive : MemoryRangeConfig) :
    Quiet ref (writeEvmAbiString ref payload drive) := quiet_callOrTaint rfl _

theorem quiet_readMemory (address length : UInt64) : Quiet ref (readMemory ref address length) := by
  refine quiet_bind (quiet_callOrTaint rfl _) fun data => ?_
  split
  · exact quiet_bind (quiet_throwTaint _ _) fun _ => quiet_pure _
  · exact quiet_pure _

theorem quiet_readPayloadData (offset length : UInt64) (outOfBounds : String) :
    Quiet ref (readPayloadData ref offset length outOfBounds) := by
  refine quiet_bind quiet_getSession fun session => ?_
  split
  · exact quiet_bind (quiet_throwTaint _ _) fun _ => quiet_readMemory _ _
  · exact quiet_readMemory _ _

theorem quiet_readTxPayload : Quiet ref (readException ref) :=
  quiet_bind
    (quiet_bind quiet_getSession fun _ =>
      quiet_bind (quiet_readMemory _ _) fun _ => quiet_getPayloadLength _)
    fun _ => quiet_readPayloadData _ _ _

theorem quiet_readNotice : Quiet ref (readNotice ref) :=
  quiet_bind
    (quiet_bind quiet_getSession fun _ =>
      quiet_bind (quiet_readMemory _ _) fun _ => quiet_getPayloadLength _)
    fun _ => quiet_bind (quiet_readPayloadData _ _ _) fun _ => quiet_pure _

theorem quiet_readReport : Quiet ref (readReport ref) :=
  quiet_bind
    (quiet_bind quiet_getSession fun _ =>
      quiet_bind (quiet_readMemory _ _) fun _ => quiet_getPayloadLength _)
    fun _ => quiet_bind (quiet_readPayloadData _ _ _) fun _ => quiet_pure _

theorem quiet_readVoucher : Quiet ref (readVoucher ref) :=
  quiet_bind
    (quiet_bind quiet_getSession fun _ => quiet_bind (quiet_readMemory _ _) fun _ =>
      quiet_bind (quiet_getPayloadLength _) fun _ =>
        quiet_bind (quiet_getEvmAddress _) fun _ => quiet_pure _)
    fun _ => quiet_bind (quiet_readPayloadData _ _ _) fun _ => quiet_pure _

theorem quiet_runMachine (fuel : Nat) (currMcycle mcycleIncrement maxMcycle : UInt64)
    (startTime : Int) (maxDeadline : UInt64) :
    Quiet ref (runMachine fuel ref currMcycle mcycleIncrement maxMcycle startTime maxDeadline) := by
  unfold runMachine
  generalize min (currMcycle + mcycleIncrement) maxMcycle = limit
  induction fuel generalizing limit with
  | zero => exact quiet_spin
  | succ fuel ih =>
      refine quiet_bind (quiet_callOrTaint rfl _) fun r => ?_
      split
      · exact quiet_pure _
      · refine quiet_bind quiet_getContext fun hctx => ?_
        split
        · exact quiet_pure _
        · exact ih _

theorem quiet_runInput (fuel : Nat) (mcycleIncrement maxMcycle : UInt64) (startTime : Int)
    (maxDeadline : UInt64) (n : Nat) (run : InputRun) :
    Quiet ref (runInput fuel ref mcycleIncrement maxMcycle startTime maxDeadline n run) := by
  induction n generalizing run with
  | zero => exact quiet_spin
  | succ n ih =>
      refine quiet_bind (quiet_runMachine _ _ _ _ _ _) fun r => ?_
      cases r with
      | none => exact quiet_pure _
      | some r =>
          dsimp only
          -- one case for each way the machine can stop
          split
          · exact quiet_pure _
          split
          · exact quiet_pure _
          split
          · split
            · exact quiet_pure _
            split
            · exact quiet_pure _
            split
            · exact quiet_bind quiet_readTxPayload fun _ => quiet_pure _
            · exact quiet_throwTaint _ _
          split
          · exact quiet_throwTaint _ _
          split
          · exact quiet_bind quiet_readVoucher fun _ => ih _
          split
          · exact quiet_bind quiet_readNotice fun _ => ih _
          split
          · exact quiet_bind quiet_readReport fun _ => ih _
          · exact ih _

theorem quiet_getKeccaks [Keccak] (range : MemoryRangeDescriptionType) (hashes : Bytes)
    (entry n : Nat) : Quiet ref (getKeccaks ref range hashes entry n) := by
  induction n generalizing entry with
  | zero => exact quiet_pure _
  | succ n ih =>
      refine quiet_bind (quiet_getHash _) fun keccak => quiet_bind (quiet_getProof _ _)
        fun proof => ?_
      generalize proof.slice hasherType (castInt range.log2Size) log2KeccakSize = sliced
      exact quiet_bind (quiet_ofExcept _) fun _ => quiet_bind (ih _) fun _ => quiet_pure _

end Quiet

end ServerManager
