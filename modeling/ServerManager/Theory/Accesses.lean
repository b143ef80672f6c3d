import ServerManager.Theory.Ranges
import ServerManager.Theory.Stops

/-!
# Memory Accesses

Which addresses the manager reads and writes while it processes an input or a
query. A read behind the loop is for the hashes of an accepted input, and all
others are for the transmit buffer: first a header, whose length depends on the
kind of the output, and then the payload that the header announced. The writes
come before the loop, the payload first and then, for inputs, the metadata.

The contract below says of each access that it stays in the range it is meant
for, and of each header that a payload which does not fit is not read. It is
kept as long as the transmit buffer is not shorter than the header of a voucher
and the range of the metadata not shorter than the metadata, which is more than
`check_rollup_config` makes sure of.

## Main definitions

* `rangesView`: The memory ranges of a session.
* `ReadSafe`, `WriteSafe`: An access stays in the range it is meant for.
* `HeaderChecked`: A payload that does not fit taints the session.
* `AccessSafe`: The contract.

## Theorems

* `obeys_readVoucher`, `obeys_readTx`: Reading outputs.
* `safe_processInput`, `safe_processPendingQuery`: Long enough ranges.
-/

namespace ServerManager

open Coroutine

/-! ### The contract -/

/-- The memory ranges of the session of a reference. -/
def rangesView (ref : Nat) (s : HandlerContext) : Option MemoryRangesType :=
  match s.session with
  | some (generation, session) => if generation = ref then some session.memoryRange else none
  | none => none

theorem rangesView_session {ref : Nat} {s : HandlerContext} {session : SessionType}
    (hs : s.session = some (ref, session)) : rangesView ref s = some session.memoryRange := by
  rw [rangesView, hs]
  exact if_pos rfl

/-- `payload` of the pending query of an epoch. -/
def queryPayload (ref : Nat) (index : UInt64) (s : HandlerContext) : Option Bytes :=
  match s.session with
  | some (generation, session) =>
    if generation = ref then
      (session.epochs.lookup index).bind fun e => e.pendingQuery.map fun q => q.payload
    else none
  | none => none

/-- The reason for which the machine yielded. -/
def RunResponse.yieldReason (r : RunResponse) : UInt64 := (r.tohost <<< 16) >>> 48

/-- The machine accepted its input. -/
def RunResponse.accepts (r : RunResponse) : Bool :=
  r.iflagsY && r.yieldReason == htifYieldReasonRxAccepted

/-- The length of the header of the output of a yield. -/
def RunResponse.headerLength (r : RunResponse) : Nat :=
  if r.iflagsY = false ∧ r.yieldReason = htifYieldReasonTxVoucher then voucherHeaderLength
  else evmAbiStringHeaderLength

/-- The length of the payload that a header announces, in its last 32 bytes. -/
def announced (header : Bytes) : Nat :=
  bigEndian ((header.drop (header.length - evmAbiLengthLength)).take evmAbiLengthLength)

/-- The last response to a Run request. -/
def lastResponse (h : List (Exchange handlerSignature)) : Option RunResponse :=
  (runRequests h).getLast?.map fun p => p.2

/-- How often the memory was written. -/
def writeCount (h : List (Exchange handlerSignature)) : Nat :=
  h.countP fun e => match e.op with
    | .call (.writeMemory _ _) => true
    | _ => false

/-- A read after a response: of all the hashes of one kind of output if the input
    was accepted, and of the transmit buffer if there is an output. -/
def ReadSafe (ranges : MemoryRangesType) (r : RunResponse) (address length : UInt64) : Prop :=
  if r.accepts then
    (address = ranges.voucherHashes.start ∧ length = ranges.voucherHashes.length) ∨
      (address = ranges.noticeHashes.start ∧ length = ranges.noticeHashes.length)
  else InRange ranges.txBuffer address length.toNat

/-- A write, with what is to be written where. -/
def WriteSafe (expected : List (MemoryRangeDescriptionType × Bytes)) (n : Nat) (address : UInt64)
    (data : Bytes) : Prop :=
  ∃ range, expected[n]? = some (range, data) ∧ InRange range address data.length

/-- The program throws the exception that taints the session. -/
def Rejects {α : Type} (ref : Nat) (c : Handler α) (s : HandlerContext) : Prop :=
  ∃ status, c.seg s = (.raised (.taintSession ref status), s)

/-- After the read of a header that announces more than fits behind it, the
    session is tainted. -/
def HeaderChecked {α : Type} (ref : Nat) (ranges : MemoryRangesType) (inv : HandlerContext → Prop)
    (r : RunResponse) (address length : UInt64)
    (k : CallReply (.readMemory address length) → Handler α) : Prop :=
  r.accepts = false → address = ranges.txBuffer.start → length.toNat = r.headerLength →
    ∀ reply s, reply.status.isOk = true → List.length reply.body = r.headerLength → inv s →
      ranges.txBuffer.length.toNat < r.headerLength + announced reply.body → Rejects ref (k reply) s

/-- The contract of an access to the memory. -/
def AccessSafe {α : Type} (ref : Nat) (ranges : MemoryRangesType)
    (expected : List (MemoryRangeDescriptionType × Bytes)) (inv : HandlerContext → Prop)
    (h : List (Exchange handlerSignature)) : (op : Op) → (Op.Reply op → Handler α) → Prop
  | .call (.readMemory address length), k => ∃ r, lastResponse h = some r ∧
      ReadSafe ranges r address length ∧ HeaderChecked ref ranges inv r address length k
  | .call (.writeMemory address data), _ => WriteSafe expected (writeCount h) address data
  | _, _ => True

theorem accessSafe_other {α : Type} {ref : Nat} {ranges : MemoryRangesType}
    {expected : List (MemoryRangeDescriptionType × Bytes)} {inv : HandlerContext → Prop}
    {h : List (Exchange handlerSignature)} {op : Op} {k : Op.Reply op → Handler α}
    (hop : op.isMemory = false) : AccessSafe ref ranges expected inv h op k := by
  unfold AccessSafe
  split
  · exact Bool.noConfusion hop
  · exact Bool.noConfusion hop
  · trivial

/-! ### Histories -/

theorem lastResponse_append {h es : List (Exchange handlerSignature)}
    (hes : ∀ e ∈ es, e.op.isRun = false) : lastResponse (h ++ es) = lastResponse h := by
  rw [lastResponse, runRequests_append, runRequests_none hes, List.append_nil, lastResponse]

theorem lastResponse_run (h : List (Exchange handlerSignature)) (limit : UInt64)
    (reply : CallReply (.run limit)) (s : HandlerContext) :
    lastResponse (h ++ [⟨.call (.run limit), reply, s⟩]) = some reply.body := by
  rw [lastResponse, runRequests_append]
  exact congrArg (Option.map fun p : UInt64 × RunResponse => p.2) List.getLast?_concat

theorem writeCount_append {h es : List (Exchange handlerSignature)}
    (hes : ∀ e ∈ es, e.op.isMemory = false) : writeCount (h ++ es) = writeCount h := by
  have hzero : writeCount es = 0 := by
    refine List.countP_eq_zero.mpr (fun e he => ?_)
    have hother := hes e he
    rcases e with ⟨op, reply, s⟩
    dsimp only at hother ⊢
    split
    · exact Bool.noConfusion hother
    · exact Bool.false_ne_true
  rw [writeCount, List.countP_append]
  exact congrArg (writeCount h + ·) hzero

section Reads

variable {α β : Type} {ref : Nat} {ranges : MemoryRangesType} {inv : HandlerContext → Prop}
variable {expected : List (MemoryRangeDescriptionType × Bytes)}
variable {Q : List (Exchange handlerSignature) → α → HandlerContext → Prop}
variable {h : List (Exchange handlerSignature)} {s : HandlerContext} {r : RunResponse}

/-- The contract of a whole program: its accesses are safe, as long as it is
    resumed in states that satisfy an invariant. -/
abbrev Safe (ref : Nat) (ranges : MemoryRangesType) (inv : HandlerContext → Prop)
    (expected : List (MemoryRangeDescriptionType × Bytes)) (c : Handler α)
    (h : List (Exchange handlerSignature)) (s : HandlerContext) : Prop :=
  c.Obeys (S := handlerSignature) (fun _ _ e => inv e.state)
    (fun h _ op k => AccessSafe ref ranges expected inv h op k) (fun _ _ _ => True)
    (fun _ _ _ => True) h s

/-- What `readMemory` does with the bytes. -/
def checkLength (ref : Nat) (length : UInt64) (data : Bytes) : Handler Bytes := do
  if data.length ≠ length.toNat then
    throwTaint ref .internal "read returned wrong number of bytes!"
  return data

theorem readMemory_bind {address length : UInt64} (f : Bytes → Handler α) :
    (readMemory ref address length >>= f) =
      (callOrTaint ref (.readMemory address length) "fast" >>= fun data =>
        (checkLength ref length data).bind f) :=
  Prog.bind_assoc (callOrTaint ref (.readMemory address length) "fast") (checkLength ref length) f

theorem checkLength_eq {length : UInt64} {data : Bytes} (hlength : data.length = length.toNat) :
    checkLength ref length data = Prog.pure data := by
  unfold checkLength
  rw [if_neg (not_not.mpr hlength)]
  rfl

/-- An access to the memory is safe, and so is what follows. -/
theorem safe_readMemory {address length : UInt64} {f : Bytes → Handler α}
    (hasks : AccessSafe ref ranges expected inv h (.call (.readMemory address length))
      (afterCall (c := .readMemory address length) ref "fast" fun data =>
        (checkLength ref length data).bind f))
    (hf : ∀ data e, e.op.isRun = false → inv e.state → data.length = length.toNat →
      Safe ref ranges inv expected (f data) (h ++ [e]) e.state) :
    Safe ref ranges inv expected (readMemory ref address length >>= f) h s := by
  rw [readMemory_bind]
  refine obeys_callOrTaint hasks (fun reply s' hs' _ => ?_) (fun _ _ _ => trivial)
  by_cases hlength : List.length reply.body = length.toNat
  · rw [checkLength_eq hlength]
    exact hf reply.body ⟨.call (.readMemory address length), reply, s'⟩ rfl hs' hlength
  · unfold checkLength
    rw [if_pos hlength]
    trivial

/-- The payload behind a header is read if it fits. -/
theorem safe_readPayloadData {offset length : UInt64} {outOfBounds : String} {f : Bytes → Handler α}
    (hview : ∀ s, inv s → rangesView ref s = some ranges) (hranges : CheckedRanges ranges)
    (hlast : lastResponse h = some r) (haccepts : r.accepts = false) (hzero : 0 < offset)
    (hoffset : offset ≤ ranges.txBuffer.length) (hs : inv s)
    (hf : ∀ data e, e.op.isRun = false → inv e.state →
      Safe ref ranges inv expected (f data) (h ++ [e]) e.state) :
    Safe ref ranges inv expected (readPayloadData ref offset length outOfBounds >>= f) h s := by
  rw [readPayloadData, Prog.bind_eq, Prog.bind_eq, Prog.bind_assoc]
  refine obeys_getSession (fun session hsession => ?_)
  have hsame : session.memoryRange = ranges := by
    have hs' := hview s hs
    rw [rangesView_session hsession] at hs'
    exact Option.some.inj hs'
  rw [hsame]
  dsimp only
  split
  · trivial
  · next hfits =>
      refine safe_readMemory ⟨r, hlast, ?_, fun _ hstart => ?_⟩ fun data e he hs' _ => hf data e he hs'
      · rw [ReadSafe, haccepts]
        exact hranges.txBuffer.rest_inRange hoffset hfits
      · -- The payload does not start where the header does.
        rw [hranges.txBuffer.start] at hstart
        have hnat := congrArg UInt64.toNat hstart
        rw [UInt64.lt_iff_toNat_lt] at hzero
        rw [UInt64.toNat_add] at hnat
        have hbound := ranges.txBuffer.start.toNat_lt
        have hoff := offset.toNat_lt
        have hzero' : (0 : UInt64).toNat = 0 := rfl
        omega

/-- A payload that does not fit is not read. -/
theorem rejects_readPayloadData {offset length : UInt64} {outOfBounds : String}
    {f : Bytes → Handler α} (hs : rangesView ref s = some ranges)
    (hlong : length > ranges.txBuffer.length - offset) :
    Rejects ref (readPayloadData ref offset length outOfBounds >>= f) s := by
  have hsession : ∃ session, s.session = some (ref, session) ∧ session.memoryRange = ranges := by
    unfold rangesView at hs
    split at hs
    · next generation session hsession =>
        split at hs
        · next heq =>
            subst heq
            exact ⟨session, hsession, Option.some.inj hs⟩
        · cases hs
    · cases hs
  rcases hsession with ⟨session, hsession, rfl⟩
  rw [readPayloadData, Prog.bind_eq, Prog.bind_eq, Prog.bind_assoc]
  refine ⟨⟨.outOfRange, outOfBounds⟩, (seg_getSession hsession).trans ?_⟩
  dsimp only
  rw [if_pos hlong]
  rfl

/-- The last 32 bytes of a header. -/
def lengthField (header : Bytes) : Bytes :=
  (header.drop (header.length - evmAbiLengthLength)).take evmAbiLengthLength

theorem lengthField_length (header : Bytes) (hheader : 32 ≤ header.length) :
    (lengthField header).length = 32 := by
  rw [lengthField, List.length_take, List.length_drop, evmAbiLengthLength]
  omega

/-- A header, the length in it, and the payload behind it. -/
theorem safe_readHeader {n : UInt64} (outOfBounds : String) {f : Bytes → Bytes → Handler α}
    {g : Bytes → Handler α} (hview : ∀ s, inv s → rangesView ref s = some ranges)
    (hranges : CheckedRanges ranges) (hlast : lastResponse h = some r) (haccepts : r.accepts = false)
    (hheader : r.headerLength = n.toNat) (hfield : 32 ≤ n.toNat) (hroom : n ≤ ranges.txBuffer.length)
    (hg : ∀ data : Bytes, data.length = n.toNat → g data =
      (getPayloadLength ref (lengthField data)).bind fun length =>
        (readPayloadData ref n length outOfBounds).bind (f data))
    (hs : inv s)
    (hf : ∀ data payload es s', (∀ e ∈ es, e.op.isRun = false) → inv s' →
      Safe ref ranges inv expected (f data payload) (h ++ es) s') :
    Safe ref ranges inv expected (getSession ref >>= fun session =>
      readMemory ref session.memoryRange.txBuffer.config.start n >>= g) h s := by
  have hpos : 0 < n := by
    rw [UInt64.lt_iff_toNat_lt]
    exact Nat.lt_of_lt_of_le (by decide) hfield
  refine obeys_getSession (fun session hsession => ?_)
  have hsame : session.memoryRange = ranges := by
    have hs' := hview s hs
    rw [rangesView_session hsession] at hs'
    exact Option.some.inj hs'
  rw [hsame]
  refine safe_readMemory ⟨r, hlast, ?_, fun _ _ _ reply s₁ hok hlength hs₁ hlong => ?_⟩
    fun data e he hs' hlength => ?_
  · rw [ReadSafe, haccepts]
    exact hranges.txBuffer.prefix_inRange (UInt64.le_iff_toNat_le.mp hroom)
  · -- The announced length is what is compared with the room that is left.
    rw [hheader] at hlength hlong
    have hnext : afterCall (c := .readMemory ranges.txBuffer.config.start n) ref "fast"
        (fun data => (checkLength ref n data).bind g) reply = g reply.body := by
      refine (afterCall_ok hok).trans ?_
      rw [checkLength_eq hlength]
      rfl
    rw [hnext, hg _ hlength]
    have hbytes := lengthField_length reply.body (hlength ▸ hfield)
    rcases getPayloadLength_cases ref (lengthField reply.body) (by rw [hbytes]; decide)
      with ⟨status, hthrow⟩ | ⟨length, hpure, hnumber⟩
    · rw [hthrow]
      exact ⟨status, rfl⟩
    · rw [hpure]
      refine rejects_readPayloadData (hview s₁ hs₁) ?_
      have hannounced : announced reply.body = length.toNat := hnumber.symm
      rw [gt_iff_lt, UInt64.lt_iff_toNat_lt, UInt64.toNat_sub_of_le _ _ hroom]
      rw [UInt64.le_iff_toNat_le] at hroom
      omega
  · rw [hg data hlength]
    have hbytes := lengthField_length data (hlength ▸ hfield)
    have hrunless : ∀ e' ∈ [e], e'.op.isRun = false := by
      intro e' he'
      rw [List.mem_singleton.mp he']
      exact he
    rcases getPayloadLength_cases ref (lengthField data) (by rw [hbytes]; decide)
      with ⟨status, hthrow⟩ | ⟨length, hpure, -⟩
    · rw [hthrow]
      trivial
    · rw [hpure]
      refine safe_readPayloadData hview hranges ((lastResponse_append hrunless).trans hlast) haccepts
        hpos hroom hs' (fun payload e₂ he₂ hs₂ => ?_)
      rw [List.append_assoc]
      refine hf data payload _ _ (fun e' he' => ?_) hs₂
      rcases List.mem_append.mp he' with hmem | hmem
      · exact hrunless e' hmem
      · rw [List.mem_singleton.mp hmem]
        exact he₂

/-- What `read_notice`, `read_report` and `read_exception` share. -/
theorem safe_readTx {f : Bytes → Handler α} (hview : ∀ s, inv s → rangesView ref s = some ranges)
    (hranges : CheckedRanges ranges) (hlast : lastResponse h = some r) (haccepts : r.accepts = false)
    (hheader : r.headerLength = evmAbiStringHeaderLength)
    (hroom : evmAbiStringHeaderLength ≤ ranges.txBuffer.length.toNat) (hs : inv s)
    (hf : ∀ payload es s', (∀ e ∈ es, e.op.isRun = false) → inv s' →
      Safe ref ranges inv expected (f payload) (h ++ es) s') :
    Safe ref ranges inv expected ((readTxPayloadDataLength ref).bind fun length =>
      (readTxPayloadData ref length).bind f) h s := by
  let g : Bytes → Handler α := fun data =>
    (getPayloadLength ref ((data.drop evmAbiOffsetLength).take evmAbiLengthLength)).bind fun length =>
      (readTxPayloadData ref length).bind f
  have hsplit : ((readTxPayloadDataLength ref).bind fun length =>
      (readTxPayloadData ref length).bind f) = (getSession ref >>= fun session =>
        readMemory ref session.memoryRange.txBuffer.config.start
          (UInt64.ofNat evmAbiStringHeaderLength) >>= g) := by
    rw [readTxPayloadDataLength, Prog.bind_eq, Prog.bind_assoc]
    congr 1
    funext session
    exact Prog.bind_assoc _ _ _
  have hn : (UInt64.ofNat evmAbiStringHeaderLength).toNat = evmAbiStringHeaderLength := by decide
  rw [hsplit]
  refine safe_readHeader "notice payload length is out of bounds" (f := fun _ => f) hview hranges
    hlast haccepts (hheader.trans hn.symm) (by decide)
    (UInt64.le_iff_toNat_le.mpr (hn.symm ▸ hroom)) (fun data hdata => ?_) hs
    fun _ payload es s' => hf payload es s'
  rw [lengthField, hdata]
  rfl

/-- `read_voucher`. -/
theorem safe_readVoucher {f : VoucherType → Handler α}
    (hview : ∀ s, inv s → rangesView ref s = some ranges) (hranges : CheckedRanges ranges)
    (hlast : lastResponse h = some r) (haccepts : r.accepts = false)
    (hheader : r.headerLength = voucherHeaderLength)
    (hroom : voucherHeaderLength ≤ ranges.txBuffer.length.toNat) (hs : inv s)
    (hf : ∀ voucher es s', (∀ e ∈ es, e.op.isRun = false) → inv s' →
      Safe ref ranges inv expected (f voucher) (h ++ es) s') :
    Safe ref ranges inv expected ((readVoucher ref).bind f) h s := by
  let address : Bytes → Handler EvmAddressType := fun data =>
    getEvmAddress ref ((data.drop (evmAbiAddressLength - evmAddressLength)).take evmAddressLength)
  let rest : EvmAddressType → UInt64 → Handler α := fun destination length =>
    (readVoucherPayloadData ref length).bind fun payload =>
      f { destination := destination, payload := payload, hash := none }
  let g : Bytes → Handler α := fun data => (getPayloadLength ref
      ((data.drop (evmAbiAddressLength + evmAbiOffsetLength)).take evmAbiLengthLength)).bind
    fun length => (address data).bind fun destination => rest destination length
  have hsplit : (readVoucher ref).bind f = (getSession ref >>= fun session =>
      readMemory ref session.memoryRange.txBuffer.config.start (UInt64.ofNat voucherHeaderLength) >>=
        g) := by
    rw [readVoucher, Prog.bind_eq, Prog.bind_assoc, readVoucherAddressAndPayloadDataLength,
      Prog.bind_eq, Prog.bind_assoc]
    congr 1
    funext session
    rw [Prog.bind_eq, Prog.bind_assoc]
    congr 1
    funext data
    simp only [Prog.bind_eq, Prog.bind_assoc]
    rfl
  have hn : (UInt64.ofNat voucherHeaderLength).toNat = voucherHeaderLength := by decide
  rw [hsplit]
  refine safe_readHeader "voucher payload length is out of bounds" (f := fun data payload =>
    (address data).bind fun destination =>
      f { destination := destination, payload := payload, hash := none }) hview hranges hlast haccepts
    (hheader.trans hn.symm) (by decide) (UInt64.le_iff_toNat_le.mpr (hn.symm ▸ hroom))
    (fun data hdata => ?_) hs (fun data payload es s' hes hs' => ?_)
  · have haddress : ∃ destination, address data = Prog.pure destination := by
      have hlength : ((data.drop (evmAbiAddressLength - evmAddressLength)).take
          evmAddressLength).length = 20 := by
        rw [List.length_take, List.length_drop, hdata]
        rfl
      simp only [address, getEvmAddress]
      rw [dif_pos hlength]
      exact ⟨_, rfl⟩
    rcases haddress with ⟨destination, haddress⟩
    simp only [g, haddress]
    rw [lengthField, hdata]
    rfl
  · simp only [address, getEvmAddress]
    split
    · exact hf _ es s' hes hs'
    · trivial

theorem readNotice_bind (f : NoticeType → Handler α) : (readNotice ref).bind f =
    (readTxPayloadDataLength ref).bind fun length => (readTxPayloadData ref length).bind
      fun payload => f { payload := payload, hash := none } := by
  simp only [readNotice, Prog.bind_eq, Prog.bind_assoc]
  rfl

theorem readReport_bind (f : ReportType → Handler α) : (readReport ref).bind f =
    (readTxPayloadDataLength ref).bind fun length => (readTxPayloadData ref length).bind
      fun payload => f { payload := payload } := by
  simp only [readReport, Prog.bind_eq, Prog.bind_assoc]
  rfl

theorem readException_bind (f : Bytes → Handler α) : (readException ref).bind f =
    (readTxPayloadDataLength ref).bind fun length => (readTxPayloadData ref length).bind f :=
  Prog.bind_assoc _ _ _

/-- A yield with an output that is no voucher. -/
theorem headerLength_of_ne (hreason : r.yieldReason ≠ htifYieldReasonTxVoucher) :
    r.headerLength = evmAbiStringHeaderLength := by
  rw [RunResponse.headerLength, if_neg fun h => hreason h.2]

/-- What the loop of an input does with a response. -/
theorem safe_inputStop {maxMcycle : UInt64} {again : InputRun → Handler InputRun}
    {rest : InputRun → Handler α} (hview : ∀ s, inv s → rangesView ref s = some ranges)
    (hranges : CheckedRanges ranges)
    (hroom : voucherHeaderLength ≤ ranges.txBuffer.length.toNat)
    (hrest : ∀ run h s, inv s →
      (run.skipReason = .accepted → ∃ r, lastResponse h = some r ∧ r.accepts = true) →
      Safe ref ranges inv expected (rest run) h s)
    (hagain : ∀ run h s, inv s → run.skipReason = .accepted →
      Safe ref ranges inv expected ((again run).bind rest) h s)
    (hlast : lastResponse h = some r) {run : InputRun} (hrun : run.skipReason = .accepted)
    (hs : inv s) :
    Safe ref ranges inv expected ((inputStop ref maxMcycle again run (some r)).bind rest) h s := by
  have hroom' : evmAbiStringHeaderLength ≤ ranges.txBuffer.length.toNat :=
    Nat.le_trans (by decide) hroom
  unfold inputStop
  dsimp only
  split
  · exact hrest _ h s hs (by simp)
  · split
    · exact hrest _ h s hs (by simp)
    · split
      · next hmanual =>
          split
          · exact hrest _ h s hs (by simp)
          · split
            · next haccepted =>
                refine hrest _ h s hs (fun _ => ⟨r, hlast, ?_⟩)
                rw [RunResponse.accepts, hmanual]
                exact beq_iff_eq.mpr haccepted
            · split
              · next hne hexception =>
                  have haccepts : r.accepts = false := by
                    rw [RunResponse.accepts, hmanual]
                    exact beq_eq_false_iff_ne.mpr hne
                  have hreason : r.yieldReason ≠ htifYieldReasonTxVoucher := by
                    rw [RunResponse.yieldReason, hexception]
                    decide
                  rw [Prog.bind_eq, Prog.bind_assoc, readException_bind]
                  refine safe_readTx hview hranges hlast haccepts (headerLength_of_ne hreason) hroom' hs
                    (fun _ es s' _ hs' => ?_)
                  exact hrest _ (h ++ es) s' hs' (by simp)
              · trivial
      · next hmanual =>
          have haccepts : r.accepts = false := by
            rw [RunResponse.accepts, Bool.eq_false_iff.mpr hmanual]
            rfl
          split
          · trivial
          · split
            · next hvoucher =>
                have hheader : r.headerLength = voucherHeaderLength :=
                  if_pos ⟨Bool.eq_false_iff.mpr hmanual, hvoucher⟩
                rw [Prog.bind_eq, Prog.bind_assoc]
                refine safe_readVoucher hview hranges hlast haccepts hheader hroom hs
                  (fun _ es s' _ hs' => ?_)
                exact hagain _ (h ++ es) s' hs' hrun
            · next hvoucher =>
                have hheader := headerLength_of_ne (r := r) hvoucher
                split
                · rw [Prog.bind_eq, Prog.bind_assoc, readNotice_bind]
                  refine safe_readTx hview hranges hlast haccepts hheader hroom' hs
                    (fun _ es s' _ hs' => ?_)
                  exact hagain _ (h ++ es) s' hs' hrun
                · split
                  · rw [Prog.bind_eq, Prog.bind_assoc, readReport_bind]
                    refine safe_readTx hview hranges hlast haccepts hheader hroom' hs
                      (fun _ es s' _ hs' => ?_)
                    exact hagain _ (h ++ es) s' hs' hrun
                  · exact hagain _ h s hs hrun

/-- The loop of an input. -/
theorem safe_runInput {mcycleIncrement maxMcycle : UInt64} {startTime : Int} {maxDeadline : UInt64}
    {rest : InputRun → Handler α} (hview : ∀ s, inv s → rangesView ref s = some ranges)
    (hranges : CheckedRanges ranges)
    (hroom : voucherHeaderLength ≤ ranges.txBuffer.length.toNat)
    (hrest : ∀ run h s, inv s →
      (run.skipReason = .accepted → ∃ r, lastResponse h = some r ∧ r.accepts = true) →
      Safe ref ranges inv expected (rest run) h s)
    (fuel n : Nat) {run : InputRun} (hrun : run.skipReason = .accepted) (hs : inv s) :
    Safe ref ranges inv expected ((runInput fuel ref mcycleIncrement maxMcycle startTime maxDeadline
      n run).bind rest) h s := by
  induction n generalizing run h s with
  | zero => trivial
  | succ n ih =>
      rw [runInput_succ, Prog.bind_assoc]
      refine obeys_runIncrements (fun _ _ s => inv s) (fun _ _ _ _ _ => trivial)
        (fun _ _ _ => trivial) (fun h limit s reply s' _ hs' _ => ?_)
        (fun h limit s reply s' _ hs' _ => ?_) (fun _ _ _ _ _ _ hs' _ => hs') fuel hs
      · exact safe_inputStop hview hranges hroom hrest (fun run h s hs hrun => ih hrun hs)
          (lastResponse_run h limit reply s') hrun hs'
      · exact hrest _ _ s' hs' (by simp)

/-- Writing the query changes neither the ranges nor the payload. -/
def LeavesPayload (ref : Nat) (index : UInt64) (inv : HandlerContext → Prop) : Prop :=
  ∀ (s : HandlerContext) (session : SessionType) (e : EpochType) (q q' : QueryType), inv s →
    s.session = some (ref, session) → session.epochs.lookup index = some e →
    e.pendingQuery = some q → q'.payload = q.payload → inv { s with
      session := some (ref, { session with
        epochs := session.epochs.insert index { e with pendingQuery := some q' } }) }

theorem safe_modifyQuery {index : UInt64} {g : QueryType → QueryType} {f : Unit → Handler α}
    (hquery : LeavesPayload ref index inv) (hg : ∀ q, (g q).payload = q.payload) (hs : inv s)
    (hf : ∀ s', inv s' → Safe ref ranges inv expected (f ()) h s') :
    Safe ref ranges inv expected ((modifyQuery ref index g).bind f) h s :=
  obeys_modifyQuery fun session e q hsession he hq =>
    hf _ (hquery s session e q (g q) hs hsession he hq (hg q))

/-- What the loop of a query does with a response. -/
theorem safe_queryStop {index maxMcycle : UInt64} {again : UInt64 → Handler Unit}
    {rest : Unit → Handler α} (hview : ∀ s, inv s → rangesView ref s = some ranges)
    (hranges : CheckedRanges ranges) (hquery : LeavesPayload ref index inv)
    (hroom : evmAbiStringHeaderLength ≤ ranges.txBuffer.length.toNat)
    (hrest : ∀ h s, Safe ref ranges inv expected (rest ()) h s)
    (hagain : ∀ mcycle h s, inv s → Safe ref ranges inv expected ((again mcycle).bind rest) h s)
    (hlast : lastResponse h = some r) (hs : inv s) :
    Safe ref ranges inv expected ((queryStop ref index maxMcycle again (some r)).bind rest) h s := by
  have hset : ∀ status, Safe ref ranges inv expected
      ((modifyQuery ref index fun q => { q with status := status }).bind rest) h s :=
    fun status => safe_modifyQuery hquery (fun _ => rfl) hs fun s' _ => hrest h s'
  unfold queryStop
  dsimp only
  split
  · exact hset _
  · split
    · exact hset _
    · split
      · next hmanual =>
          split
          · exact hset _
          · split
            · exact hset _
            · split
              · next hne hexception =>
                  have haccepts : r.accepts = false := by
                    rw [RunResponse.accepts, hmanual]
                    exact beq_eq_false_iff_ne.mpr hne
                  have hreason : r.yieldReason ≠ htifYieldReasonTxVoucher := by
                    rw [RunResponse.yieldReason, hexception]
                    decide
                  rw [Prog.bind_eq, Prog.bind_assoc]
                  refine safe_modifyQuery hquery (fun _ => rfl) hs (fun s₁ hs₁ => ?_)
                  rw [Prog.bind_eq, Prog.bind_assoc, readException_bind]
                  refine safe_readTx hview hranges hlast haccepts (headerLength_of_ne hreason) hroom
                    hs₁ (fun _ es s' _ hs' => ?_)
                  exact safe_modifyQuery hquery (fun _ => rfl) hs' fun s'' _ => hrest _ s''
              · trivial
      · next hmanual =>
          have haccepts : r.accepts = false := by
            rw [RunResponse.accepts, Bool.eq_false_iff.mpr hmanual]
            rfl
          split
          · trivial
          · split
            · next hreport =>
                have hreason : r.yieldReason ≠ htifYieldReasonTxVoucher := by
                  rw [RunResponse.yieldReason, hreport]
                  decide
                rw [Prog.bind_eq, Prog.bind_assoc, readReport_bind]
                refine safe_readTx hview hranges hlast haccepts (headerLength_of_ne hreason) hroom hs
                  (fun _ es s' _ hs' => ?_)
                rw [Prog.bind_eq, Prog.bind_assoc]
                exact safe_modifyQuery hquery (fun _ => rfl) hs' fun s'' hs'' => hagain _ _ s'' hs''
            · exact hagain _ h s hs

/-- The loop of a query. -/
theorem safe_runQuery {index mcycleIncrement maxMcycle : UInt64} {startTime : Int}
    {maxDeadline : UInt64} {rest : Unit → Handler α}
    (hview : ∀ s, inv s → rangesView ref s = some ranges) (hranges : CheckedRanges ranges)
    (hquery : LeavesPayload ref index inv)
    (hroom : evmAbiStringHeaderLength ≤ ranges.txBuffer.length.toNat)
    (hrest : ∀ h s, Safe ref ranges inv expected (rest ()) h s) (fuel n : Nat) {mcycle : UInt64}
    (hs : inv s) :
    Safe ref ranges inv expected ((runQuery fuel ref index mcycleIncrement maxMcycle startTime
      maxDeadline n mcycle).bind rest) h s := by
  induction n generalizing mcycle h s with
  | zero => trivial
  | succ n ih =>
      rw [runQuery_succ, Prog.bind_assoc]
      refine obeys_runIncrements (fun _ _ s => inv s) (fun _ _ _ _ _ => trivial)
        (fun _ _ _ => trivial) (fun h limit s reply s' _ hs' _ => ?_)
        (fun h limit s reply s' _ hs' _ => ?_) (fun _ _ _ _ _ _ hs' _ => hs') fuel hs
      · exact safe_queryStop hview hranges hquery hroom hrest (fun mcycle h s hs => ih hs)
          (lastResponse_run h limit reply s') hs'
      · exact safe_modifyQuery hquery (fun _ => rfl) hs' fun s'' _ => hrest _ s''

/-! ### Behind the loop -/

theorem isWork_eq {op : Op} (hop : op.isWork = false) :
    op.isRun = false ∧ op.isMemory = false := by
  rwa [Op.isWork, Bool.or_eq_false_iff] at hop

theorem safe_getContext {f : HandlerContext → Handler α}
    (hf : Safe ref ranges inv expected (f s) h s) :
    Safe ref ranges inv expected (getContext.bind f) h s := hf

/-- A part of a program that neither runs the machine nor touches its memory,
    and keeps the invariant. -/
theorem safe_skip {c : Handler β} {f : β → Handler α} (hc : Avoids Op.isWork c)
    (hmeets : c.Meets (S := handlerSignature) inv (fun s _ _ => inv s) (fun _ s => inv s)
      (fun _ s => inv s) s)
    (hf : ∀ b es s', (∀ e ∈ es, e.op.isRun = false) → (∀ e ∈ es, e.op.isMemory = false) → inv s' →
      Safe ref ranges inv expected (f b) (h ++ es) s') :
    Safe ref ranges inv expected (c.bind f) h s :=
  Prog.obeys_avoids (S := handlerSignature) hc hmeets (fun _ _ _ _ he => he)
    (fun _ _ _ _ hop => accessSafe_other (isWork_eq hop).2) (fun _ _ _ => trivial)
    fun es b s' hes hs' => hf b es s' (fun e he => (isWork_eq (hes e he)).1)
      (fun e he => (isWork_eq (hes e he)).2) hs'

/-- The same where the invariant does not matter. -/
theorem safe_ignore {c : Handler β} {f : β → Handler α} (hc : Avoids Op.isWork c)
    (hf : ∀ b es s', (∀ e ∈ es, e.op.isRun = false) →
      Safe ref ranges inv expected (f b) (h ++ es) s') :
    Safe ref ranges inv expected (c.bind f) h s := by
  have htrue : c.Meets (S := handlerSignature) (fun _ => True) (fun _ _ _ => True) (fun _ _ => True)
      (fun _ _ => True) s := Prog.meets_true c s
  exact Prog.obeys_avoids (S := handlerSignature) hc htrue (fun _ _ _ _ _ => trivial)
    (fun _ _ _ _ hop => accessSafe_other (isWork_eq hop).2) (fun _ _ _ => trivial)
    fun es b s' hes _ => hf b es s' fun e he => (isWork_eq (hes e he)).1

/-- A write, and what follows it. -/
theorem safe_write {address : UInt64} {data : Bytes} {f : Unit → Handler α} {n : Nat}
    (range : MemoryRangeDescriptionType) (hcount : writeCount h = n)
    (hexpected : expected[n]? = some (range, data)) (hin : InRange range address data.length)
    (hf : ∀ e, inv e.state → e.op.isRun = false → writeCount (h ++ [e]) = n + 1 →
      Safe ref ranges inv expected (f ()) (h ++ [e]) e.state) :
    Safe ref ranges inv expected ((callOrTaint ref (.writeMemory address data) "fast").bind f) h s := by
  refine obeys_callOrTaint (c := .writeMemory address data) ⟨range, ?_, hin⟩
    (fun reply s' hs' _ => ?_) (fun _ _ _ => trivial)
  · rw [hcount]
    exact hexpected
  · have hnext : writeCount (h ++ [⟨.call (.writeMemory address data), reply, s'⟩]) = n + 1 := by
      rw [writeCount, List.countP_append, ← hcount]
      rfl
    exact hf ⟨.call (.writeMemory address data), reply, s'⟩ hs' rfl hnext

/-- A program that does not touch the memory. -/
theorem safe_of_avoids {c : Handler Unit} (hc : Avoids Op.isMemory c) :
    Safe ref ranges inv expected c h s :=
  Prog.obeys_of_avoids hc fun _ _ _ _ hop => accessSafe_other hop

end Reads

section Finish

variable [Keccak] {α : Type} {ref : Nat} {index : UInt64} {ranges : MemoryRangesType}
variable {inv : HandlerContext → Prop}
variable {expected : List (MemoryRangeDescriptionType × Bytes)}
variable {h : List (Exchange handlerSignature)} {s : HandlerContext} {r : RunResponse}

/-- The hashes of an accepted input. -/
theorem safe_collectOutputs {output : OutputKind} {epochInputIndex count : Nat}
    {f : ProofType × ProofType × List KeccakType → Handler α}
    (hview : ∀ s, inv s → rangesView ref s = some ranges) (hranges : CheckedRanges ranges)
    (houtput : output.range ranges = ranges.voucherHashes ∨
      output.range ranges = ranges.noticeHashes)
    (hlast : lastResponse h = some r) (haccepts : r.accepts = true) (hs : inv s)
    (hf : ∀ x es s', (∀ e ∈ es, e.op.isRun = false) → inv s' →
      Safe ref ranges inv expected (f x) (h ++ es) s') :
    Safe ref ranges inv expected
      ((collectOutputs ref index output epochInputIndex count).bind f) h s := by
  rw [collectOutputs, Prog.bind_eq, Prog.bind_assoc]
  refine obeys_getSession (fun session hsession => ?_)
  have hsame : session.memoryRange = ranges := by
    have hs' := hview s hs
    rw [rangesView_session hsession] at hs'
    exact Option.some.inj hs'
  rw [hsame]
  dsimp only
  rw [Prog.bind_eq, Prog.bind_assoc]
  refine safe_ignore (avoids_getProof _ _) (fun proof es₁ s₁ hes₁ => ?_)
  rw [Prog.bind_eq, Prog.bind_assoc]
  refine safe_ignore (avoids_pushLeaf _ _ _) (fun leaf es₂ s₂ hes₂ => ?_)
  rw [Prog.bind_eq, Prog.bind_assoc]
  refine safe_readMemory ⟨r, ?_, ?_, fun hne => ?_⟩ (fun hashes e he hs₃ _ => ?_)
  · rw [lastResponse_append hes₂, lastResponse_append hes₁]
    exact hlast
  · rw [ReadSafe, haccepts]
    rcases houtput with heq | heq
    · rw [heq]
      exact Or.inl ⟨hranges.voucherHashes.start, hranges.voucherHashes.length⟩
    · rw [heq]
      exact Or.inr ⟨hranges.noticeHashes.start, hranges.noticeHashes.length⟩
  · rw [haccepts] at hne
    cases hne
  · split
    · trivial
    · rw [Prog.bind_eq, Prog.bind_assoc]
      refine safe_skip (avoids_getKeccaks _ _ _ _) (meets_quiet (quiet_getKeccaks _ _ _ _) hs₃) (fun keccaks es₄ s₄ hes₄ _ hs₄ => ?_)
      rw [List.append_assoc, List.append_assoc, List.append_assoc]
      refine hf _ _ s₄ (fun e' he' => ?_) hs₄
      simp only [List.mem_append, List.mem_singleton] at he'
      rcases he' with he₁ | he₂ | rfl | he₄
      · exact hes₁ e' he₁
      · exact hes₂ e' he₂
      · exact he
      · exact hes₄ e' he₄

/-- What follows the loop, for an input that was accepted as the machine said, or
    skipped. -/
theorem safe_finishInput (self : HandlerId) (globalInputIndex : UInt64) (epochInputIndex : Nat)
    {run : InputRun} (hview : ∀ s, inv s → rangesView ref s = some ranges)
    (hranges : CheckedRanges ranges)
    (haccepted : run.skipReason = .accepted → ∃ r, lastResponse h = some r ∧ r.accepts = true)
    (hs : inv s) :
    Safe ref ranges inv expected
      (finishInput self ref index globalInputIndex epochInputIndex run) h s := by
  have hpop : Avoids Op.isMemory (popInput ref index) :=
    avoids_bind (avoids_modifySession _) fun _ => avoids_modifyEpoch _
  refine Prog.obeys_bind.mpr ?_
  unfold recordInput
  split
  · next hreason =>
      rcases haccepted hreason with ⟨r, hlast, haccepts⟩
      refine Prog.obeys_bind.mp ?_
      rw [recordAccepted, Prog.bind_eq, Prog.bind_assoc]
      refine safe_collectOutputs hview hranges (Or.inl rfl) hlast haccepts hs
        (fun vouchers es₁ s₁ hes₁ hs₁ => ?_)
      dsimp only
      rw [Prog.bind_eq, Prog.bind_assoc]
      refine safe_collectOutputs hview hranges (Or.inr rfl)
        ((lastResponse_append hes₁).trans hlast) haccepts hs₁ (fun notices es₂ s₂ _ _ => ?_)
      refine safe_of_avoids (avoids_bind ?_ fun _ => hpop)
      refine avoids_bind avoids_getRootHash (fun hash => ?_)
      exact avoids_bind (avoids_modifyEpoch _) fun _ => avoids_modifySession _
  · refine Prog.obeys_bind.mp (safe_of_avoids (avoids_bind ?_ fun _ => hpop))
    refine avoids_bind (avoids_triggerAndWaitCheckin self avoids_rollback) (fun _ => ?_)
    refine avoids_bind (avoids_pushLeaf _ _ _) (fun vouchers => ?_)
    refine avoids_bind (avoids_pushLeaf _ _ _) (fun notices => ?_)
    refine avoids_bind avoids_getRootHash (fun hash => ?_)
    refine avoids_bind avoids_getEpoch (fun e => ?_)
    dsimp only
    split
    · trivial
    · exact avoids_modifyEpoch _

/-- The same after the checks of the trees. -/
theorem safe_afterLoop (self : HandlerId) (globalInputIndex : UInt64) (epochInputIndex : Nat)
    {run : InputRun} (hview : ∀ s, inv s → rangesView ref s = some ranges)
    (hranges : CheckedRanges ranges)
    (haccepted : run.skipReason = .accepted → ∃ r, lastResponse h = some r ∧ r.accepts = true)
    (hs : inv s) :
    Safe ref ranges inv expected ((checkTrees ref index epochInputIndex run).bind
      (finishInput self ref index globalInputIndex epochInputIndex)) h s := by
  refine Prog.obeys_bind.mpr ?_
  refine obeys_getEpoch (fun _ _ _ _ => ?_)
  dsimp only
  split
  · trivial
  · split
    · trivial
    · exact safe_finishInput self globalInputIndex epochInputIndex hview hranges haccepted hs

/-! ### Whole inputs and queries -/

/-- What is written for an input, in order. -/
def inputWrites (ranges : MemoryRangesType) (input : InputType) :
    List (MemoryRangeDescriptionType × Bytes) :=
  [(ranges.rxBuffer, evmAbiString input.payload),
    (ranges.inputMetadata, evmAbiEncodedInputMetadata input.metadata)]

/-- The ranges are long enough for what may be in them, or too short for any input. -/
def LongEnough (ranges : MemoryRangesType) : Prop :=
  ranges.rxBuffer.length.toNat < evmAbiStringHeaderLength ∨
    (voucherHeaderLength ≤ ranges.txBuffer.length.toNat ∧
      evmAbiInputMetadataLength ≤ ranges.inputMetadata.length.toNat)

/-- The accesses for an input are safe if the ranges are long enough. -/
theorem safe_processInput (fuel : Nat) (self : HandlerId) (input : InputType)
    (hblind : Blind ref inv) (hview : ∀ s, inv s → rangesView ref s = some ranges)
    (hranges : CheckedRanges ranges) (hlong : LongEnough ranges) (hs : inv s) :
    Safe ref ranges inv (inputWrites ranges input) (processInput fuel self ref index input) [] s := by
  have hsame : ∀ {s session}, inv s → s.session = some (ref, session) →
      session.memoryRange = ranges := by
    intro s session hs hsession
    have hs' := hview s hs
    rw [rangesView_session hsession] at hs'
    exact Option.some.inj hs'
  refine obeys_getSession (fun session₀ _ => ?_)
  refine obeys_getEpoch (fun _ epoch _ _ => ?_)
  refine safe_skip (avoids_triggerAndWaitCheckin self avoids_snapshot) (meets_triggerAndWaitCheckin self hblind (fun _ => meets_snapshot) hs)
    (fun _ es₁ s₁ hes₁ hmem₁ hs₁ => ?_)
  have hcount₁ : writeCount ([] ++ es₁) = 0 := writeCount_append hmem₁
  generalize [] ++ es₁ = h₁ at hcount₁
  refine Prog.obeys_bind.mpr ?_
  refine obeys_getSession (fun session₁ hsession₁ => ?_)
  dsimp only
  rw [hsame hs₁ hsession₁]
  split
  · next hfits =>
      have hends : ranges.rxBuffer.length.toNat ≥ evmAbiStringHeaderLength :=
        Nat.le_trans (Nat.le_add_left _ _) hfits
      rcases hlong with hshort | ⟨htx, hmetadata⟩
      · exact absurd hshort (Nat.not_lt.mpr hends)
      · refine Prog.obeys_bind.mp ?_
        rw [runFittingInput, Prog.bind_eq, Prog.bind_assoc]
        refine safe_skip avoids_clearMemoryRanges (meets_quiet quiet_clearMemoryRanges hs₁) (fun _ es₂ s₂ hes₂ hmem₂ hs₂ => ?_)
        have hcount₂ : writeCount (h₁ ++ es₂) = 0 := (writeCount_append hmem₂).trans hcount₁
        generalize h₁ ++ es₂ = h₂ at hcount₂
        rw [Prog.bind_eq, Prog.bind_assoc]
        refine obeys_getSession (fun session₂ hsession₂ => ?_)
        rw [hsame hs₂ hsession₂, Prog.bind_eq, Prog.bind_assoc]
        -- The payload.
        refine safe_write ranges.rxBuffer hcount₂ rfl ?_ (fun e₃ hs₃ _ hcount₃ => ?_)
        · refine hranges.rxBuffer.prefix_inRange ?_
          rw [evmAbiString_length, Nat.add_comm]
          exact hfits
        · rw [Prog.bind_eq, Prog.bind_assoc]
          refine obeys_getSession (fun session₃ hsession₃ => ?_)
          rw [hsame hs₃ hsession₃, Prog.bind_eq, Prog.bind_assoc]
          -- The metadata.
          refine safe_write ranges.inputMetadata hcount₃ rfl ?_ (fun e₄ hs₄ _ _ => ?_)
          · refine hranges.inputMetadata.prefix_inRange ?_
            rw [evmAbiEncodedInputMetadata_length]
            exact hmetadata
          · rw [Prog.bind_eq, Prog.bind_assoc]
            refine safe_skip (avoids_callOrTaint rfl _) (meets_quiet quiet_resetIflagsY hs₄) (fun _ es₅ s₅ _ _ hs₅ => ?_)
            rw [Prog.bind_eq, Prog.bind_assoc]
            refine safe_skip (avoids_checkHtifYieldAckData _) (meets_quiet (quiet_checkHtifYieldAckData _) hs₅) (fun _ es₆ s₆ _ _ hs₆ => ?_)
            rw [Prog.bind_eq, Prog.bind_assoc]
            refine obeys_getSession (fun session₆ _ => ?_)
            have hloop : Safe ref ranges inv (inputWrites ranges input)
                ((runInput fuel ref session₆.serverCycles.advanceStateIncrement
                  (session₆.currentMcycle + session₆.serverCycles.maxAdvanceState) s₆.now
                  session₆.serverDeadline.advanceState fuel
                  ⟨.accepted, session₁.currentMcycle, [], [], [], []⟩).bind fun run =>
                    (checkTrees ref index epoch.processedInputs.length run).bind
                      (finishInput self ref index session₀.processedInputCount
                        epoch.processedInputs.length))
                (h₂ ++ [e₃] ++ [e₄] ++ es₅ ++ es₆) s₆ :=
              safe_runInput hview hranges htx (fun run h s hs haccepted =>
                safe_afterLoop self _ _ hview hranges haccepted hs) fuel fuel rfl hs₆
            rw [← Prog.bind_assoc] at hloop
            exact hloop
  · refine safe_finishInput self _ _ hview hranges (fun hreason => ?_) hs₁
    cases hreason

end Finish

/-- What is written for a query. -/
def queryWrites (ranges : MemoryRangesType) (payload : Bytes) :
    List (MemoryRangeDescriptionType × Bytes) :=
  [(ranges.rxBuffer, evmAbiString payload)]

theorem queryPayload_eq {ref : Nat} {index : UInt64} {s : HandlerContext} {session : SessionType}
    {e : EpochType} {q : QueryType} (hs : s.session = some (ref, session))
    (he : session.epochs.lookup index = some e) (hq : e.pendingQuery = some q) :
    queryPayload ref index s = some q.payload := by
  rw [queryPayload, hs]
  show (if ref = ref then _ else _) = _
  rw [if_pos rfl, he, Option.bind_some, hq]
  rfl

/-- The accesses for a query are safe if the ranges are long enough. -/
theorem safe_processPendingQuery {ref : Nat} {index : UInt64} {ranges : MemoryRangesType}
    {inv : HandlerContext → Prop} {payload : Bytes} {s : HandlerContext} (fuel : Nat)
    (self : HandlerId) (hblind : Blind ref inv)
    (hview : ∀ s, inv s → rangesView ref s = some ranges)
    (hpayload : ∀ s, inv s → queryPayload ref index s = some payload)
    (hquery : LeavesPayload ref index inv) (hranges : CheckedRanges ranges)
    (hlong : LongEnough ranges) (hs : inv s) :
    Safe ref ranges inv (queryWrites ranges payload) (processPendingQuery fuel self ref index) [] s := by
  have hsame : ∀ {s session}, inv s → s.session = some (ref, session) →
      session.memoryRange = ranges := by
    intro s session hs hsession
    have hs' := hview s hs
    rw [rangesView_session hsession] at hs'
    exact Option.some.inj hs'
  have hq : ∀ {s session e} {q : QueryType}, inv s → s.session = some (ref, session) →
      session.epochs.lookup index = some e → e.pendingQuery = some q → q.payload = payload := by
    intro s session e q hs hsession he hq
    have hs' := hpayload s hs
    rw [queryPayload_eq hsession he hq] at hs'
    exact Option.some.inj hs'
  refine obeys_getEpoch (fun _ e _ _ => ?_)
  split
  · trivial
  · refine obeys_getSession (fun session hsession => ?_)
    refine safe_modifyQuery hquery (fun _ => rfl) hs (fun s₁ hs₁ => ?_)
    refine obeys_getQuery (fun session₁ e₁ q₁ hsession₁ he₁ hq₁ => ?_)
    rw [hsame hs hsession, hq hs₁ hsession₁ he₁ hq₁]
    split
    · exact safe_modifyQuery hquery (fun _ => rfl) hs₁ fun _ _ => trivial
    · next hfits =>
        rw [Nat.not_lt] at hfits
        have hends : evmAbiStringHeaderLength ≤ ranges.rxBuffer.length.toNat :=
          Nat.le_trans (Nat.le_add_left _ _) hfits
        rcases hlong with hshort | ⟨htx, -⟩
        · exact absurd hshort (Nat.not_lt.mpr hends)
        · refine safe_skip (avoids_triggerAndWaitCheckin self avoids_snapshot)
            (meets_triggerAndWaitCheckin self hblind (fun _ => meets_snapshot) hs₁)
            (fun _ es₂ s₂ _ hmem₂ hs₂ => ?_)
          have hcount₂ : writeCount ([] ++ es₂) = 0 := writeCount_append hmem₂
          generalize [] ++ es₂ = h₂ at hcount₂
          rw [executeQuery, Prog.bind_eq, Prog.bind_eq, Prog.bind_assoc]
          refine safe_skip avoids_clearRxBuffer (meets_quiet quiet_clearRxBuffer hs₂)
            (fun _ es₃ s₃ _ hmem₃ hs₃ => ?_)
          have hcount₃ : writeCount (h₂ ++ es₃) = 0 := (writeCount_append hmem₃).trans hcount₂
          generalize h₂ ++ es₃ = h₃ at hcount₃
          rw [Prog.bind_eq, Prog.bind_assoc]
          refine obeys_getSession (fun session₃ hsession₃ => ?_)
          rw [hsame hs₃ hsession₃, Prog.bind_eq, Prog.bind_assoc]
          refine obeys_getQuery (fun session₄ e₄ q₄ hsession₄ he₄ hq₄ => ?_)
          rw [hq hs₃ hsession₄ he₄ hq₄, Prog.bind_eq, Prog.bind_assoc]
          refine safe_write ranges.rxBuffer hcount₃ rfl ?_ (fun e₅ hs₅ _ _ => ?_)
          · refine hranges.rxBuffer.prefix_inRange ?_
            rw [evmAbiString_length, Nat.add_comm]
            exact hfits
          · rw [Prog.bind_eq, Prog.bind_assoc]
            refine safe_skip (avoids_callOrTaint rfl _) (meets_quiet quiet_resetIflagsY hs₅)
              (fun _ es₆ s₆ _ _ hs₆ => ?_)
            rw [Prog.bind_eq, Prog.bind_assoc]
            refine safe_skip (avoids_setHtifYieldAckData _)
              (meets_quiet (quiet_setHtifYieldAckData _) hs₆) (fun _ es₇ s₇ _ _ hs₇ => ?_)
            rw [Prog.bind_eq, Prog.bind_assoc]
            refine obeys_getSession (fun session₇ _ => ?_)
            rw [Prog.bind_eq, Prog.bind_assoc]
            refine safe_getContext ?_
            rw [Prog.bind_eq, Prog.bind_assoc]
            refine safe_modifyQuery hquery (fun _ => rfl) hs₇ (fun s₈ hs₈ => ?_)
            exact safe_runQuery hview hranges hquery (Nat.le_trans (by decide) htx)
              (fun h s => safe_of_avoids (avoids_triggerAndWaitCheckin self avoids_rollback)) fuel fuel
              hs₈

end ServerManager
