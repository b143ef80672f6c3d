import ServerManager.Theory.Accesses
import ServerManager.Theory.TimeLimit

/-!
# Ranges That Are Too Short

`check_rollup_config` looks at the length of a range only to see that it is a
power of two. A transmit buffer that is shorter than the header of a voucher is
read beyond its end, and a range for the metadata that is shorter than the
metadata is written beyond its end. These are the only ways for an access to
leave its range, and neither can happen when the receive buffer is too short for
any input.

## Main definitions

* `InputsSafe`, `QueriesSafe`: All accesses of all inputs and queries are safe.

## Theorems

* `memory_safe_iff`: The accesses are safe exactly if the ranges are long enough.
* `memory_overread`: An accepted configuration with a short transmit buffer.
-/

namespace ServerManager

open Coroutine

/-- The session has these memory ranges. -/
def HasRanges (ref : Nat) (ranges : MemoryRangesType) (s : HandlerContext) : Prop :=
  rangesView ref s = some ranges

/-- And this query. -/
def HasQuery (ref : Nat) (index : UInt64) (ranges : MemoryRangesType) (payload : Bytes)
    (s : HandlerContext) : Prop :=
  rangesView ref s = some ranges ∧ queryPayload ref index s = some payload

/-- Every access to the memory of the machine in every trace of an input is safe,
    as long as the handler is resumed while the session has its ranges. -/
def InputsSafe [Keccak] (ranges : MemoryRangesType) : Prop :=
  ∀ fuel self ref index input s es op k s', HasRanges ref ranges s →
    (∀ e ∈ es, HasRanges ref ranges e.state) →
    (processInput fuel self ref index input).Trace (S := handlerSignature) s es (.parked op k) s' →
    AccessSafe ref ranges (inputWrites ranges input) (HasRanges ref ranges) es op k

/-- The same for queries, as long as the query is there. -/
def QueriesSafe (ranges : MemoryRangesType) : Prop :=
  ∀ fuel self ref index payload s es op k s', HasQuery ref index ranges payload s →
    (∀ e ∈ es, HasQuery ref index ranges payload e.state) →
    (processPendingQuery fuel self ref index).Trace (S := handlerSignature) s es (.parked op k) s' →
    AccessSafe ref ranges (queryWrites ranges payload) (HasQuery ref index ranges payload) es op k

/-! ### Long enough ranges -/

theorem blind_hasRanges (ref : Nat) (ranges : MemoryRangesType) :
    Blind ref (HasRanges ref ranges) where
  waiting _ _ _ hs := hs
  stub s session stub hs hsession := by
    rw [HasRanges, rangesView_session hsession] at hs
    rw [HasRanges, rangesView_session rfl]
    exact hs

theorem blind_hasQuery (ref : Nat) (index : UInt64) (ranges : MemoryRangesType) (payload : Bytes) :
    Blind ref (HasQuery ref index ranges payload) where
  waiting _ _ _ hs := hs
  stub s session stub hs hsession := by
    refine ⟨(blind_hasRanges ref ranges).stub s session stub hs.1 hsession, ?_⟩
    have hpayload := hs.2
    rw [queryPayload, hsession] at hpayload
    rw [queryPayload]
    exact hpayload

theorem leavesPayload_hasQuery (ref : Nat) (index : UInt64) (ranges : MemoryRangesType)
    (payload : Bytes) : LeavesPayload ref index (HasQuery ref index ranges payload) := by
  intro s session e q q' hs hsession he hq hsame
  constructor
  · have hranges := hs.1
    rw [rangesView_session hsession] at hranges
    rw [rangesView_session rfl]
    exact hranges
  · have hpayload := hs.2
    rw [queryPayload_eq hsession he hq, ← hsame] at hpayload
    rw [← hpayload]
    exact queryPayload_eq rfl (AList.lookup_insert _) rfl

theorem inputsSafe_of_longEnough [Keccak] {ranges : MemoryRangesType}
    (hranges : CheckedRanges ranges) (hlong : LongEnough ranges) : InputsSafe ranges := by
  intro fuel self ref index input s es op k s' hs hes htrace
  have hsafe : Safe ref ranges (HasRanges ref ranges) (inputWrites ranges input)
      (processInput fuel self ref index input) [] s :=
    safe_processInput fuel self input (blind_hasRanges ref ranges) (fun _ hs => hs) hranges hlong hs
  have hin := Prog.trace_traceIn (h := []) htrace (fun e he _ _ => hes e he)
  exact Prog.obeys_traceIn hsafe hin

theorem queriesSafe_of_longEnough {ranges : MemoryRangesType} (hranges : CheckedRanges ranges)
    (hlong : LongEnough ranges) : QueriesSafe ranges := by
  intro fuel self ref index payload s es op k s' hs hes htrace
  have hsafe := safe_processPendingQuery fuel self (blind_hasQuery ref index ranges payload)
    (fun _ hs => hs.1) (fun _ hs => hs.2) (leavesPayload_hasQuery ref index ranges payload) hranges
    hlong hs
  have hin := Prog.trace_traceIn (h := []) htrace (fun e he _ _ => hes e he)
  exact Prog.obeys_traceIn hsafe hin

/-! ### Ranges that are too short -/

/-- The sample session with other ranges. -/
def rangesSession (ranges : MemoryRangesType) : SessionType :=
  { sampleSession with memoryRange := ranges }

/-- The state in which the input is taken up. -/
def rangesStart (ranges : MemoryRangesType) : HandlerContext :=
  { sampleContext with session := some (0, rangesSession ranges) }

/-- The state in which it is executed, after the check-in. -/
def rangesContext (ranges : MemoryRangesType) : HandlerContext :=
  { sampleContext with session := some (0, rangesSession ranges), alarms := [.cancelled] }

theorem rangesContext_connected (ranges : MemoryRangesType) : Connected 0 (rangesContext ranges) :=
  ⟨rangesSession ranges, rfl, rfl⟩

/-- What comes before the input is executed: a snapshot and a check-in. -/
theorem execute_prefix [Keccak] (ranges : MemoryRangesType) :
    ∃ es, (∀ e ∈ es, HasRanges 0 ranges e.state) ∧ (∀ e ∈ es, e.op.isMemory = false) ∧
      ∀ es' op k s', (executeInput 5 0 0 0 shortInput).Trace (S := handlerSignature)
        (rangesContext ranges) es' (.parked op k) s' →
        ∃ k', (processInput 5 7 0 0 shortInput).Trace (S := handlerSignature)
          (rangesStart ranges) (es ++ es') (.parked op k') s' := by
  let c : Handler Unit := processInput 5 7 0 0 shortInput
  let start : HandlerContext := rangesStart ranges
  let rest : InputRun → Handler Unit := finishInput 7 0 0 0 0
  let waiting : HandlerContext := { start with
    waitingCheckin := some { coroutine := 7, alarm := 0, status := none }, alarms := [.running] }
  let checkedIn : HandlerContext := { waiting with
    waitingCheckin := some { coroutine := 7, alarm := 0, status := some true } }
  have hparked : ∃ k₁, c.seg start = (.parked (.call .snapshot) k₁, start) ∧
      ∃ k₂, (k₁ default).seg start = (.parked .checkin k₂, waiting) ∧
        (k₂ ()).seg checkedIn = ((executeInput 5 0 0 0 shortInput).bind rest).seg
          (rangesContext ranges) := ⟨_, rfl, _, rfl, rfl⟩
  rcases hparked with ⟨k₁, hsnapshot, k₂, hcheckin, hexecute⟩
  let e₁ : Exchange handlerSignature := ⟨.call .snapshot, default, start⟩
  let e₂ : Exchange handlerSignature := ⟨.checkin, (), checkedIn⟩
  refine ⟨[e₁, e₂], ?_, ?_, fun es' op k s' htrace => ?_⟩
  · rintro e (_ | ⟨_, _ | ⟨_, he⟩⟩)
    · rfl
    · rfl
    · cases he
  · rintro e (_ | ⟨_, _ | ⟨_, he⟩⟩)
    · rfl
    · rfl
    · cases he
  · have hrest := (Prog.trace_congr hexecute).mpr (Prog.trace_bind_parked htrace)
    exact ⟨_, k₁, start, hsnapshot, k₂, waiting, hcheckin, hrest⟩

theorem answers_replaceMemoryRanges (configs : List MemoryRangeConfig) :
    Answers 0 (replaceMemoryRanges 0 configs) () := by
  induction configs with
  | nil => exact answers_pure ()
  | cons config configs ih =>
      exact answers_bind (answers_callOrTaint (c := .replaceMemoryRange config) ()) ih

theorem answers_clearMemoryRanges : Answers 0 (clearMemoryRanges 0) () :=
  answers_getSession fun _ => answers_replaceMemoryRanges _

/-- The register says that the machine waits for an input. -/
theorem answers_checkHtifYieldAckData :
    Answers 0 (checkHtifYieldAckData 0 rollupAdvanceState) () :=
  answers_bind (answers_callOrTaint (c := .readCsr .htifFromhost)
    ((htifDeviceYield <<< 56) ||| (htifYieldManual <<< 48) : UInt64)) (answers_pure ())

/-- An automatic yield with a voucher. -/
def voucherYield : RunResponse := ⟨150, htifYieldReasonTxVoucher <<< 32, false, true, false⟩

/-- The header of a voucher is read after such a yield. -/
theorem seg_readVoucher {α : Type} {ref : Nat} {s : HandlerContext} {session : SessionType}
    (f : VoucherType → Handler α) (hsession : s.session = some (ref, session))
    (hstub : session.serverStub = true) :
    ∃ k, ((readVoucher ref).bind f).seg s = (.parked (.call (.readMemory
      session.memoryRange.txBuffer.config.start (UInt64.ofNat voucherHeaderLength))) k, s) := by
  simp only [readVoucher, readVoucherAddressAndPayloadDataLength, Prog.bind_eq, Prog.bind_assoc]
  refine ⟨?next, (seg_getSession hsession).trans ?header⟩
  case header =>
    rw [← Prog.bind_eq, readMemory_bind]
    exact seg_connected ⟨session, hsession, hstub⟩

/-- After a yield with a voucher the voucher is read. -/
theorem inputStop_voucher {ref : Nat} {maxMcycle : UInt64} (again : InputRun → Handler InputRun)
    (run : InputRun) (hbelow : (150 : UInt64) < maxMcycle) :
    inputStop ref maxMcycle again run (some voucherYield) = (readVoucher ref).bind fun voucher =>
      again { run with vouchers := run.vouchers ++ [voucher], currentMcycle := 150 } := by
  have hvoucher : (htifYieldReasonTxVoucher <<< 32) <<< 16 >>> 48 = htifYieldReasonTxVoucher := by
    decide
  unfold inputStop voucherYield
  dsimp only
  rw [if_neg (UInt64.not_le.mpr hbelow), if_neg Bool.false_ne_true, if_neg Bool.false_ne_true,
    Bool.not_true, if_neg Bool.false_ne_true, if_pos hvoucher]
  rfl

section Short

variable {ranges : MemoryRangesType}

/-- The end of `runFittingInput`, from the loop that runs the machine. -/
def startRun [Keccak] : Handler InputRun := do
  let session ← getSession 0
  let hctx ← getContext
  let maxMcycle := session.currentMcycle + session.serverCycles.maxAdvanceState
  let run ← runInput 5 0 session.serverCycles.advanceStateIncrement maxMcycle hctx.now
    session.serverDeadline.advanceState 5 ⟨.accepted, 100, [], [], [], []⟩
  checkTrees 0 0 0 run

/-- What `runFittingInput` does after the metadata was written. -/
def afterMetadata [Keccak] : Handler InputRun := do
  resetIflagsY 0
  checkHtifYieldAckData 0 rollupAdvanceState
  startRun

theorem seg_startRun [Keccak] (ranges : MemoryRangesType) :
    startRun.seg (rangesContext ranges) = Prog.seg ((runInput 5 0 100 (100 + 1000) 0 1000 5
      ⟨.accepted, 100, [], [], [], []⟩).bind (checkTrees 0 0 0)) (rangesContext ranges) := rfl

/-- The payload is written, and then the metadata. -/
theorem execute_writes [Keccak]
    (hfits : evmAbiStringHeaderLength ≤ ranges.rxBuffer.length.toNat) :
    ∃ es, (∀ e ∈ es, e.state = rangesContext ranges) ∧ writeCount es = 1 ∧
      ∀ es' l s', ((callOrTaint 0 (.writeMemory ranges.inputMetadata.config.start
          (evmAbiEncodedInputMetadata shortInput.metadata)) "fast").bind fun _ =>
            afterMetadata).Trace (S := handlerSignature) (rangesContext ranges) es' l s' →
        (executeInput 5 0 0 0 shortInput).Trace (S := handlerSignature) (rangesContext ranges)
          (es ++ es') l s' := by
  have hs := rangesContext_connected ranges
  have hsession : (rangesContext ranges).session = some (0, rangesSession ranges) := rfl
  rcases answers_clearMemoryRanges _ hs with ⟨es, hclear, hes⟩
  have havoids : Avoids Op.isMemory (clearMemoryRanges 0) := avoids_clearMemoryRanges
  have hmemory := (Prog.avoids_trace havoids hclear).1
  let payload : Exchange handlerSignature := ⟨.call (.writeMemory ranges.rxBuffer.config.start
    (evmAbiString shortInput.payload)), (⟨default, ()⟩ : CallReply (.writeMemory _ _)),
    rangesContext ranges⟩
  have hexecute : (executeInput 5 0 0 0 shortInput).seg (rangesContext ranges) =
      (runFittingInput 5 0 0 0 shortInput ⟨.accepted, 100, [], [], [], []⟩).seg
        (rangesContext ranges) := by
    have hpayload : shortInput.payload.length + evmAbiStringHeaderLength ≤
        (rangesSession ranges).memoryRange.rxBuffer.length.toNat := hfits
    refine (seg_getSession hsession).trans ?_
    dsimp only
    rw [if_pos hpayload]
    rfl
  refine ⟨es ++ [payload], ?_, ?_, fun es' l s' hrest => ?_⟩
  · intro e he
    rcases List.mem_append.mp he with hmem | hmem
    · exact hes e hmem
    · rw [List.mem_singleton.mp hmem]
  · have hcount : writeCount ([] ++ es) = 0 := writeCount_append hmemory
    rw [List.nil_append] at hcount
    rw [writeCount, List.countP_append]
    exact congrArg (· + 1) hcount
  · refine (Prog.trace_congr hexecute).mpr ?_
    rw [List.append_assoc, List.singleton_append]
    refine Prog.trace_bind_done hclear ?_
    refine (Prog.trace_congr (seg_getSession hsession)).mpr ?_
    refine ⟨_, _, seg_connected hs, ?_⟩
    exact (Prog.trace_congr (seg_getSession hsession)).mpr hrest

/-- After the metadata the machine runs, yields with a voucher, and the header of
    the voucher is read. -/
theorem afterMetadata_reads [Keccak] (ranges : MemoryRangesType) :
    ∃ es k, (∀ e ∈ es, e.state = rangesContext ranges) ∧ lastResponse es = some voucherYield ∧
      afterMetadata.Trace (S := handlerSignature) (rangesContext ranges) es
        (.parked (.call (.readMemory ranges.txBuffer.config.start
          (UInt64.ofNat voucherHeaderLength))) k) (rangesContext ranges) := by
  have hs := rangesContext_connected ranges
  have hsession : (rangesContext ranges).session = some (0, rangesSession ranges) := rfl
  have hreset : Answers 0 (resetIflagsY 0) () := answers_callOrTaint (c := .resetIflagsY) ()
  rcases hreset _ hs with ⟨es₁, hreset, hes₁⟩
  rcases answers_checkHtifYieldAckData _ hs with ⟨es₂, hcheck, hes₂⟩
  let yielded : Exchange handlerSignature := ⟨.call (.run (min (100 + 100) (100 + 1000))),
    (⟨default, voucherYield⟩ : CallReply (.run _)), rangesContext ranges⟩
  rcases seg_readVoucher (fun voucher => (runInput 5 0 100 (100 + 1000) 0 1000 4
    ⟨.accepted, 150, [voucher], [], [], []⟩).bind (checkTrees 0 0 0)) hsession rfl with ⟨k, hread⟩
  refine ⟨es₁ ++ (es₂ ++ [yielded]), k, ?_, ?_, ?_⟩
  · intro e he
    rcases List.mem_append.mp he with hmem | hmem
    · exact hes₁ e hmem
    rcases List.mem_append.mp hmem with hmem | hmem
    · exact hes₂ e hmem
    · rw [List.mem_singleton.mp hmem]
  · rw [← List.append_assoc]
    exact lastResponse_run _ _ _ _
  · refine Prog.trace_bind_done hreset ?_
    refine Prog.trace_bind_done hcheck ?_
    refine (Prog.trace_congr (seg_startRun ranges)).mpr ?_
    rw [runInput_succ, Prog.bind_assoc]
    refine ⟨_, _, seg_runMachine_limit 4 100 100 (100 + 1000) 0 1000 hs, ?_⟩
    have hyield : ∀ limit, (afterRun 0 100 (100 + 1000) 0 1000 4 limit fun o =>
        (inputStop 0 (100 + 1000) (runInput 5 0 100 (100 + 1000) 0 1000 4)
          ⟨.accepted, 100, [], [], [], []⟩ o).bind (checkTrees 0 0 0)) voucherYield =
        (readVoucher 0).bind fun voucher => (runInput 5 0 100 (100 + 1000) 0 1000 4
          ⟨.accepted, 150, [voucher], [], [], []⟩).bind (checkTrees 0 0 0) := by
      intro limit
      have hx : voucherYield.iflagsX = true := rfl
      rw [afterRun_yield hx, inputStop_voucher _ _ (by decide), Prog.bind_assoc]
      rfl
    have hok : ∀ f : RunResponse → Handler InputRun,
        afterCall (c := .run (min (100 + 100) (100 + 1000))) 0 "advance/inspect state increment" f
          yielded.reply = f voucherYield := fun f => afterCall_ok rfl
    exact (congrArg (fun c => Prog.seg c _) ((hok _).trans (hyield _))).trans hread

theorem lastResponse_after {h es : List (Exchange handlerSignature)} {r : RunResponse}
    (hlast : lastResponse es = some r) : lastResponse (h ++ es) = some r := by
  rw [lastResponse, Option.map_eq_some_iff] at hlast
  rcases hlast with ⟨p, hp, rfl⟩
  rw [lastResponse, runRequests_append, List.getLast?_append, hp]
  rfl

/-- A trace that ends before the metadata is written. -/
theorem shortInput_writes [Keccak]
    (hfits : evmAbiStringHeaderLength ≤ ranges.rxBuffer.length.toNat) :
    ∃ es, (∀ e ∈ es, HasRanges 0 ranges e.state) ∧ writeCount es = 1 ∧
      ∀ es' op k s', ((callOrTaint 0 (.writeMemory ranges.inputMetadata.config.start
          (evmAbiEncodedInputMetadata shortInput.metadata)) "fast").bind fun _ =>
            afterMetadata).Trace (S := handlerSignature) (rangesContext ranges) es'
              (.parked op k) s' →
        ∃ k', (processInput 5 7 0 0 shortInput).Trace (S := handlerSignature) (rangesStart ranges)
          (es ++ es') (.parked op k') s' := by
  have hhas : HasRanges 0 ranges (rangesContext ranges) := rfl
  rcases execute_prefix ranges with ⟨es₁, hes₁, hmemory, hprefix⟩
  rcases execute_writes hfits with ⟨es₂, hes₂, hcount, hwrites⟩
  refine ⟨es₁ ++ es₂, ?_, ?_, fun es' op k s' hrest => ?_⟩
  · intro e he
    rcases List.mem_append.mp he with hmem | hmem
    · exact hes₁ e hmem
    · exact hes₂ e hmem ▸ hhas
  · have hfirst : writeCount ([] ++ es₁) = 0 := writeCount_append hmemory
    rw [List.nil_append] at hfirst
    rw [writeCount] at hfirst hcount
    rw [writeCount, List.countP_append, hfirst, hcount]
  · rw [List.append_assoc]
    exact hprefix _ _ _ _ (hwrites _ _ _ hrest)

/-- A trace that ends before the header of a voucher is read. -/
theorem shortInput_reads [Keccak]
    (hfits : evmAbiStringHeaderLength ≤ ranges.rxBuffer.length.toNat) :
    ∃ es k s', (∀ e ∈ es, HasRanges 0 ranges e.state) ∧ lastResponse es = some voucherYield ∧
      (processInput 5 7 0 0 shortInput).Trace (S := handlerSignature) (rangesStart ranges) es
        (.parked (.call (.readMemory ranges.txBuffer.config.start
          (UInt64.ofNat voucherHeaderLength))) k) s' := by
  have hhas : HasRanges 0 ranges (rangesContext ranges) := rfl
  have hs := rangesContext_connected ranges
  rcases shortInput_writes hfits with ⟨es₁, hes₁, _, hwrites⟩
  rcases afterMetadata_reads ranges with ⟨es₂, k, hes₂, hlast, hread⟩
  let metadata : Exchange handlerSignature := ⟨.call (.writeMemory
    ranges.inputMetadata.config.start (evmAbiEncodedInputMetadata shortInput.metadata)),
    (⟨default, ()⟩ : CallReply (.writeMemory _ _)), rangesContext ranges⟩
  rcases hwrites (metadata :: es₂) _ _ _ ⟨_, _, seg_connected hs, hread⟩ with ⟨k', hinput⟩
  refine ⟨_, k', _, ?_, ?_, hinput⟩
  · intro e he
    rcases List.mem_append.mp he with hmem | hmem
    · exact hes₁ e hmem
    rcases List.mem_cons.mp hmem with rfl | hmem
    · exact hhas
    · exact hes₂ e hmem ▸ hhas
  · rw [List.append_cons]
    exact lastResponse_after hlast

/-- With ranges that are too short the sample input leaves one of them. -/
theorem not_inputsSafe [Keccak] (hranges : CheckedRanges ranges) (hlong : ¬ LongEnough ranges) :
    ¬ InputsSafe ranges := by
  intro hsafe
  have hstart : HasRanges 0 ranges (rangesStart ranges) := rfl
  have hfits : evmAbiStringHeaderLength ≤ ranges.rxBuffer.length.toNat :=
    Nat.le_of_not_lt fun hshort => hlong (Or.inl hshort)
  by_cases hmetadata : evmAbiInputMetadataLength ≤ ranges.inputMetadata.length.toNat
  · -- The header of the voucher does not fit the transmit buffer.
    have htx : ranges.txBuffer.length.toNat < voucherHeaderLength :=
      Nat.lt_of_not_le fun hheader => hlong (Or.inr ⟨hheader, hmetadata⟩)
    rcases shortInput_reads hfits with ⟨es, k, s', hes, hlast, hinput⟩
    rcases hsafe 5 7 0 0 shortInput _ es _ k s' hstart hes hinput with ⟨r, hr, hread, _⟩
    cases hr.symm.trans hlast
    exact not_inRange hranges.txBuffer.start htx hread
  · -- The metadata does not fit its range.
    rcases shortInput_writes hfits with ⟨es, hes, hcount, hwrites⟩
    rcases hwrites [] _ _ _ (seg_connected (rangesContext_connected ranges)) with ⟨k, hinput⟩
    rw [List.append_nil] at hinput
    rcases hsafe 5 7 0 0 shortInput _ es _ k _ hstart hes hinput with ⟨range, hexpected, hrange⟩
    rw [hcount] at hexpected
    cases hexpected
    rw [evmAbiEncodedInputMetadata_length] at hrange
    exact not_inRange hranges.inputMetadata.start (Nat.lt_of_not_le hmetadata) hrange

/-- Every access to the memory of the machine stays inside the range it is meant
    for, for every input and query and whatever the memory has in it, exactly if the
    receive buffer is too short for any input or the transmit buffer has room for the
    header of a voucher and the range of the metadata for the metadata. -/
theorem memory_safe_iff [Keccak] {ref : Nat} {config : MachineConfig}
    (haccepts : Accepts ref config ranges) :
    InputsSafe ranges ∧ QueriesSafe ranges ↔ LongEnough ranges := by
  have hranges := checkedRanges_of_accepts haccepts
  constructor
  · rintro ⟨hinputs, _⟩
    by_contra hlong
    exact not_inputsSafe hranges hlong hinputs
  · exact fun hlong => ⟨inputsSafe_of_longEnough hranges hlong, queriesSafe_of_longEnough hranges hlong⟩

end Short

end ServerManager

/-! ### A short transmit buffer -/

namespace ServerManager

open Coroutine

attribute [local instance] keccak256

/-- The checks and the ranges of the sample session. -/
theorem accepts_sampleConfig : Accepts 0 sampleConfig sampleSession.memoryRange :=
  ⟨sampleContext, _, _, rfl, rfl, rfl⟩

theorem memory_safe_iff_sample :
    InputsSafe sampleSession.memoryRange ∧ QueriesSafe sampleSession.memoryRange :=
  (memory_safe_iff accepts_sampleConfig).mpr (Or.inr ⟨by decide, by decide⟩)

/-- A transmit buffer with room for the header of a notice, but not of a voucher. -/
def shortTxBuffer : MemoryRangeDescriptionType :=
  { start := 0x60001000
    length := 64
    log2Size := 6
    config := { start := 0x60001000, length := 64, imageFilename := "", shared := false } }

def shortRanges : MemoryRangesType := { sampleSession.memoryRange with txBuffer := shortTxBuffer }

def shortConfig : MachineConfig :=
  { sampleConfig with
    rollup := sampleConfig.rollup.map fun rollup => { rollup with txBuffer := shortTxBuffer.config } }

/-- This configuration passes the checks, and the header of the first voucher is
    read beyond the end of the transmit buffer. -/
theorem memory_overread :
    Accepts 0 shortConfig shortRanges ∧ ¬ (InputsSafe shortRanges ∧ QueriesSafe shortRanges) ∧
    ∃ es k s', (processInput 5 7 0 0 shortInput).Trace (S := handlerSignature)
        (rangesStart shortRanges) es (.parked (.call (.readMemory shortTxBuffer.start 96)) k) s' ∧
      ¬ InRange shortTxBuffer shortTxBuffer.start 96 := by
  have haccepts : Accepts 0 shortConfig shortRanges := ⟨sampleContext, _, _, rfl, rfl, rfl⟩
  have hchecked := checkedRanges_of_accepts haccepts
  have hshort : ¬ LongEnough shortRanges := by
    unfold LongEnough
    decide
  have hfits : evmAbiStringHeaderLength ≤ shortRanges.rxBuffer.length.toNat := by decide
  rcases shortInput_reads hfits with ⟨es, k, s', _, _, hread⟩
  refine ⟨haccepts, fun hsafe => not_inputsSafe hchecked hshort hsafe.1, es, k, s', hread, ?_⟩
  exact not_inRange hchecked.txBuffer.start (show shortTxBuffer.length.toNat < 96 by decide)

end ServerManager
