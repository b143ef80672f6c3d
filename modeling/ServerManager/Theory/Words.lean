import ServerManager.Core.Sample
import ServerManager.Theory.Accesses

/-!
# Words of the ABI

What the manager writes for the machine and what it reads back is laid out in
words of 32 bytes, with a 64-bit number in the last eight of a word. The writer
copies the numbers over a buffer of zeros at offsets it computes; here the result
is seen to be the words one after the other. The reader takes the word behind the
offset for a number of 256 bits.

## Main definitions

* `abiWord`: The word of a 64-bit number.
* `Serves`: An exchange with a machine whose transmit buffer has certain bytes.
* `EndsOn`: How a program ends when all it reads is in that buffer.

## Theorems

* `bigEndian_abiWord`: A word stands for its number.
* `evmAbiString_eq`, `evmAbiEncodedInputMetadata_eq`: What is written, as words.
* `ends_readTxPayload`: The length in the header decides, and nothing else.
* `encodings_lossless`: What is written is read back.
-/

namespace ServerManager

open Coroutine

/-! ### Words -/

/-- The word of a 64-bit number. -/
def abiWord (value : UInt64) : Bytes :=
  List.replicate 24 0 ++ endianStore value

theorem abiWord_length (value : UInt64) : (abiWord value).length = 32 := by
  rw [abiWord, List.length_append, List.length_replicate, endianStore_length]

/-- The bytes of a number stand for it. -/
theorem bigEndian_endianStore (value : UInt64) : bigEndian (endianStore value) = value.toNat := by
  have hvalue := value.toNat_lt
  have hbyte : ∀ i : Nat, i < 64 →
      (value >>> UInt64.ofNat i).toUInt8.toNat = value.toNat / 2 ^ i % 256 := by
    intro i hi
    have hshift : (UInt64.ofNat i).toNat = i := by
      rw [UInt64.toNat_ofNat']
      omega
    rw [UInt64.toNat_toUInt8, UInt64.toNat_shiftRight, hshift, Nat.mod_eq_of_lt hi,
      Nat.shiftRight_eq_div_pow]
  have hrange : List.range 8 = [0, 1, 2, 3, 4, 5, 6, 7] := rfl
  rw [bigEndian, endianStore, hrange]
  simp only [List.map_cons, List.map_nil, List.foldl_cons, List.foldl_nil]
  rw [hbyte _ (by decide), hbyte _ (by decide), hbyte _ (by decide), hbyte _ (by decide),
    hbyte _ (by decide), hbyte _ (by decide), hbyte _ (by decide), hbyte _ (by decide)]
  omega

theorem isNull_replicate (n : Nat) : isNull (List.replicate n 0) = true := by
  rw [isNull, List.all_replicate]
  simp

/-- A word stands for its number. -/
theorem bigEndian_abiWord (value : UInt64) : bigEndian (abiWord value) = value.toNat := by
  rw [abiWord, bigEndian_append _ (isNull_replicate 24), bigEndian_endianStore]

theorem endianStore_injective : Function.Injective endianStore := by
  intro a b hab
  have hnumber := congrArg bigEndian hab
  rw [bigEndian_endianStore, bigEndian_endianStore] at hnumber
  exact UInt64.toNat_inj.mp hnumber

theorem abiWord_injective : Function.Injective abiWord := by
  intro a b hab
  exact endianStore_injective (List.append_cancel_left hab)

/-- Copying over the middle of a buffer. -/
theorem copyAt_append (before middle after data : Bytes) {offset : Nat}
    (hbefore : before.length = offset) (hmiddle : middle.length = data.length) :
    copyAt (before ++ (middle ++ after)) offset data = before ++ (data ++ after) := by
  rw [copyAt, List.take_left' hbefore, ← List.append_assoc before middle after,
    List.drop_left' (by rw [List.length_append, hbefore, hmiddle]), List.append_assoc]

/-- A number is copied over the end of a word of zeros. -/
theorem copyAt_word (before after : Bytes) {offset : Nat} (value : UInt64)
    (hbefore : before.length + 24 = offset) :
    copyAt (before ++ (List.replicate 32 0 ++ after)) offset (endianStore value) =
      before ++ (abiWord value ++ after) := by
  have hword : List.replicate 32 (0 : UInt8) = List.replicate 24 0 ++ List.replicate 8 0 := rfl
  have hcopy := copyAt_append (before ++ List.replicate 24 0) (List.replicate 8 0) after
    (endianStore value) (show _ = offset by rw [List.length_append, List.length_replicate, hbefore])
    (by rw [List.length_replicate, endianStore_length])
  rw [hword, List.append_assoc, ← List.append_assoc before, hcopy, List.append_assoc, abiWord,
    List.append_assoc]

/-- A string is the word of the offset, the word of its length, and its bytes. -/
theorem evmAbiString_eq (payload : Bytes) : evmAbiString payload =
    abiWord 32 ++ (abiWord (UInt64.ofNat payload.length) ++ payload) := by
  let zeros : Bytes := List.replicate 32 0
  let length := UInt64.ofNat payload.length
  have hheader : copyAt (copyAt (zeros ++ (zeros ++ [])) 24 (endianStore 32)) 56
      (endianStore length) = abiWord 32 ++ (abiWord length ++ []) := by
    have hoffset : copyAt (zeros ++ (zeros ++ [])) 24 (endianStore 32) =
        abiWord 32 ++ (zeros ++ []) := copyAt_word [] (zeros ++ []) 32 rfl
    rw [hoffset]
    exact copyAt_word (abiWord 32) [] length (by rw [abiWord_length])
  show copyAt (copyAt (zeros ++ (zeros ++ [])) 24 (endianStore 32)) 56 (endianStore length) ++
    payload = _
  rw [hheader, List.append_nil, List.append_assoc]

/-- The word of an address. -/
def addressWord (address : EvmAddressType) : Bytes :=
  List.replicate 12 0 ++ address.1

theorem addressWord_length (address : EvmAddressType) : (addressWord address).length = 32 := by
  rw [addressWord, List.length_append, List.length_replicate, address.2]

theorem addressWord_injective : Function.Injective addressWord := by
  intro a b hab
  exact Subtype.ext (List.append_cancel_left hab)

/-- The metadata is five words. -/
theorem evmAbiEncodedInputMetadata_eq (metadata : InputMetadataType) :
    evmAbiEncodedInputMetadata metadata =
      addressWord metadata.msgSender ++ (abiWord metadata.blockNumber ++
        (abiWord metadata.timestamp ++ (abiWord metadata.epochIndex ++
          (abiWord metadata.inputIndex ++ [])))) := by
  let zeros : Bytes := List.replicate 32 0
  let sender := addressWord metadata.msgSender
  let blockNumber := abiWord metadata.blockNumber
  let timestamp := abiWord metadata.timestamp
  let epochIndex := abiWord metadata.epochIndex
  have hsender : copyAt (List.replicate 160 0) 12 metadata.msgSender.1 =
      sender ++ (zeros ++ (zeros ++ (zeros ++ (zeros ++ [])))) := by
    have hcopy := copyAt_append (List.replicate 12 0) (List.replicate 20 0)
      (zeros ++ (zeros ++ (zeros ++ (zeros ++ [])))) metadata.msgSender.1 List.length_replicate
      (by rw [metadata.msgSender.2, List.length_replicate])
    have hzeros : List.replicate 160 (0 : UInt8) = List.replicate 12 0 ++ (List.replicate 20 0 ++
        (zeros ++ (zeros ++ (zeros ++ (zeros ++ []))))) := by
      simp only [zeros, List.append_nil, List.replicate_append_replicate, Nat.reduceAdd]
    rw [hzeros, hcopy, ← List.append_assoc]
    rfl
  have hlength : sender.length = 32 := addressWord_length _
  have hblockNumber := copyAt_word sender (zeros ++ (zeros ++ (zeros ++ [])))
    metadata.blockNumber (show _ = 56 by rw [hlength])
  have htimestamp := copyAt_word (sender ++ blockNumber) (zeros ++ (zeros ++ []))
    metadata.timestamp (show _ = 88 by rw [List.length_append, hlength, abiWord_length])
  have hepochIndex := copyAt_word (sender ++ (blockNumber ++ timestamp)) (zeros ++ [])
    metadata.epochIndex (show _ = 120 by
      rw [List.length_append, List.length_append, hlength, abiWord_length, abiWord_length])
  have hinputIndex := copyAt_word (sender ++ (blockNumber ++ (timestamp ++ epochIndex))) []
    metadata.inputIndex (show _ = 152 by
      rw [List.length_append, List.length_append, List.length_append, hlength, abiWord_length,
        abiWord_length, abiWord_length])
  simp only [List.append_assoc] at hblockNumber htimestamp hepochIndex hinputIndex
  show copyAt (copyAt (copyAt (copyAt (copyAt (List.replicate 160 0) 12 metadata.msgSender.1) 56
    (endianStore metadata.blockNumber)) 88 (endianStore metadata.timestamp)) 120
    (endianStore metadata.epochIndex)) 152 (endianStore metadata.inputIndex) = _
  rw [hsender, hblockNumber, htimestamp, hepochIndex, hinputIndex]

/-- Different metadata are written as different bytes. -/
theorem evmAbiEncodedInputMetadata_injective :
    Function.Injective evmAbiEncodedInputMetadata := by
  intro a b hab
  rw [evmAbiEncodedInputMetadata_eq, evmAbiEncodedInputMetadata_eq] at hab
  have hwords : ∀ x y : UInt64, (abiWord x).length = (abiWord y).length := by
    intro x y
    rw [abiWord_length, abiWord_length]
  rcases List.append_inj hab (by rw [addressWord_length, addressWord_length]) with ⟨hsender, hab⟩
  rcases List.append_inj hab (hwords _ _) with ⟨hblockNumber, hab⟩
  rcases List.append_inj hab (hwords _ _) with ⟨htimestamp, hab⟩
  rcases List.append_inj hab (hwords _ _) with ⟨hepochIndex, hab⟩
  rcases List.append_inj hab (hwords _ _) with ⟨hinputIndex, _⟩
  rcases a with ⟨_, _, _, _, _⟩
  rcases b with ⟨_, _, _, _, _⟩
  cases addressWord_injective hsender
  cases abiWord_injective hblockNumber
  cases abiWord_injective htimestamp
  cases abiWord_injective hepochIndex
  cases abiWord_injective hinputIndex
  rfl

/-! ### The reader -/

/-- The number of more bytes behind those that were read. -/
theorem foldl_bigEndian (bytes : Bytes) (n : Nat) :
    bytes.foldl (fun n byte => n * 256 + byte.toNat) n =
      n * 256 ^ bytes.length + bigEndian bytes := by
  induction bytes generalizing n with
  | nil => rw [List.foldl_nil, List.length_nil, Nat.pow_zero, Nat.mul_one]; rfl
  | cons byte bytes ih =>
      rw [bigEndian, List.foldl_cons, List.foldl_cons, ih, ih (0 * 256 + byte.toNat),
        List.length_cons, Nat.pow_succ', Nat.add_mul, Nat.mul_assoc, Nat.zero_mul, Nat.zero_add,
        Nat.add_assoc]

/-- Unless the bytes in front are zeros, the number is too large for those behind. -/
theorem le_bigEndian {bytes : Bytes} (rest : Bytes) (hnull : isNull bytes = false) :
    256 ^ rest.length ≤ bigEndian (bytes ++ rest) := by
  have hpos : 0 < bigEndian bytes := by
    induction bytes with
    | nil => cases hnull
    | cons byte bytes ih =>
        have hcons := foldl_bigEndian bytes (0 * 256 + byte.toNat)
        have hbyte : byte ≠ 0 ∨ isNull bytes = false := by
          rw [isNull, List.all_cons, Bool.and_eq_false_iff, decide_eq_false_iff_not] at hnull
          exact hnull
        rw [bigEndian, List.foldl_cons, hcons, Nat.zero_mul, Nat.zero_add]
        rcases hbyte with hbyte | hrest
        · have hpositive : 0 < byte.toNat := by
            refine Nat.pos_of_ne_zero fun hzero => hbyte ?_
            exact UInt8.toNat_inj.mp hzero
          have hpow : 0 < 256 ^ bytes.length := Nat.pow_pos (by decide)
          exact Nat.lt_of_lt_of_le (Nat.mul_pos hpositive hpow) (Nat.le_add_right _ _)
        · exact Nat.lt_of_lt_of_le (ih hrest) (Nat.le_add_left _ _)
  rw [bigEndian, List.foldl_append, foldl_bigEndian]
  have hmul := Nat.mul_le_mul_right (256 ^ rest.length) hpos
  rw [Nat.one_mul] at hmul
  exact Nat.le_trans hmul (Nat.le_add_right _ _)

/-- The length in a header is read if it fits 64 bits, and refused otherwise. -/
theorem getPayloadLength_eq (ref : Nat) (bytes : Bytes) (hlength : 8 ≤ bytes.length) :
    (2 ^ 64 ≤ bigEndian bytes ∧
        ∃ status, getPayloadLength ref bytes = .throw (.taintSession ref status)) ∨
      ∃ n : UInt64, getPayloadLength ref bytes = .pure n ∧ n.toNat = bigEndian bytes := by
  rcases getPayloadLength_cases ref bytes hlength with ⟨status, hthrow⟩ | hpure
  · refine Or.inl ⟨?_, status, hthrow⟩
    have hnull : isNull (bytes.take (bytes.length - 8)) = false := by
      unfold getPayloadLength at hthrow
      split at hthrow
      · cases hthrow
      · next hnull => exact Bool.eq_false_iff.mpr hnull
    have hlarge := le_bigEndian (bytes.drop (bytes.length - 8)) hnull
    rw [List.take_append_drop, List.length_drop] at hlarge
    have height : bytes.length - (bytes.length - 8) = 8 := by omega
    rwa [height] at hlarge
  · exact Or.inr hpure

/-- The session is connected, and this is its transmit buffer. -/
def HasBuffer (ref : Nat) (start length : UInt64) (s : HandlerContext) : Prop :=
  ∃ session, s.session = some (ref, session) ∧ session.serverStub = true ∧
    session.memoryRange.txBuffer.config.start = start ∧
    session.memoryRange.txBuffer.length = length

/-- An exchange with a machine whose transmit buffer has these bytes. -/
def Serves (ref : Nat) (start length : UInt64) (buffer : Bytes) : Exchange handlerSignature → Prop
  | ⟨.call (.readMemory address n), reply, s⟩ =>
    reply.status.isOk = true ∧ reply.body = (buffer.drop (address - start).toNat).take n.toNat ∧
      HasBuffer ref start length s
  | ⟨_, _, s⟩ => HasBuffer ref start length s

/-- With fewer than `n` answers the program may still wait for one, and else it has
    ended like this. -/
def EndsOn {α : Type} (ref : Nat) (start length : UInt64) (buffer : Bytes) (c : Handler α)
    (s : HandlerContext) (n : Nat) (P : Landing handlerSignature α → Prop) : Prop :=
  ∀ es l s', c.Trace (S := handlerSignature) s es l s' →
    (∀ e ∈ es, Serves ref start length buffer e) →
    (es.length < n ∧ ∃ op k, l = .parked op k) ∨ P l

section EndsOn

variable {α β : Type} {ref : Nat} {start length : UInt64} {buffer : Bytes} {s : HandlerContext}
  {n : Nat} {P : Landing handlerSignature α → Prop}

/-- A program that does not wait has ended. -/
theorem endsOn_settled {c : Handler α} {l : Landing handlerSignature α} {s₁ : HandlerContext}
    (hseg : c.seg s = (l, s₁)) (hwaits : ∀ op k, l ≠ .parked op k) (hl : P l) :
    EndsOn ref start length buffer c s n P := by
  intro es l' s' htrace hserves
  cases es with
  | nil =>
      have hsame : (l, s₁) = (l', s') := hseg.symm.trans htrace
      cases hsame
      exact Or.inr hl
  | cons e es =>
      rcases htrace with ⟨k, s₂, hparked, _⟩
      cases hseg.symm.trans hparked
      exact absurd rfl (hwaits _ _)

/-- A read inside the buffer is one answer. -/
theorem endsOn_readMemory {address m : UInt64} {f : Bytes → Handler α}
    (hs : HasBuffer ref start length s)
    (hdata : ((buffer.drop (address - start).toNat).take m.toNat).length = m.toNat)
    (hf : ∀ s', HasBuffer ref start length s' → EndsOn ref start length buffer
      (f ((buffer.drop (address - start).toNat).take m.toNat)) s' n P) :
    EndsOn ref start length buffer (readMemory ref address m >>= f) s (n + 1) P := by
  intro es l s' htrace hserves
  rw [readMemory_bind] at htrace
  rcases hs with ⟨session, hsession, hstub, _, _⟩
  have hparked : ((callOrTaint ref (.readMemory address m) "fast").bind fun data =>
      (checkLength ref m data).bind f).seg s = _ := seg_connected ⟨session, hsession, hstub⟩
  cases es with
  | nil =>
      have hsame := hparked.symm.trans htrace
      rw [Prod.mk.injEq] at hsame
      exact Or.inl ⟨Nat.succ_pos n, _, _, hsame.1.symm⟩
  | cons e es =>
      rcases htrace with ⟨k, s₂, hseg, hrest⟩
      rcases e with ⟨op, reply, s₁⟩
      cases hparked.symm.trans hseg
      rcases hserves _ List.mem_cons_self with ⟨hok, hbody, hs₁⟩
      have hnext : afterCall (c := .readMemory address m) ref "fast"
          (fun data => (checkLength ref m data).bind f) reply =
          f ((buffer.drop (address - start).toNat).take m.toNat) := by
        refine (afterCall_ok hok).trans ?_
        rw [hbody, checkLength_eq hdata]
        rfl
      rw [hnext] at hrest
      rcases hf s₁ hs₁ es l s' hrest fun e he => hserves e (List.mem_cons_of_mem _ he) with
        ⟨hlength, hwaits⟩ | hend
      · exact Or.inl ⟨Nat.succ_lt_succ hlength, hwaits⟩
      · exact Or.inr hend

theorem endsOn_getSession {f : SessionType → Handler α} (hs : HasBuffer ref start length s)
    (hf : ∀ session, session.memoryRange.txBuffer.config.start = start →
      session.memoryRange.txBuffer.length = length →
      EndsOn ref start length buffer (f session) s n P) :
    EndsOn ref start length buffer (getSession ref >>= f) s n P := by
  rcases hs with ⟨session, hsession, _, hstart, hlength⟩
  intro es l s' htrace
  exact hf session hstart hlength es l s' ((Prog.trace_congr (seg_getSession hsession)).mp htrace)

/-- The second word of the buffer, as a number. -/
def announcedLength (buffer : Bytes) : Nat :=
  bigEndian ((buffer.drop evmAbiOffsetLength).take evmAbiLengthLength)

/-- How the two reads end: with the payload, or with the session tainted. -/
def TxPayload (ref : Nat) (length : UInt64) (buffer : Bytes) (l : Landing handlerSignature Bytes) :
    Prop :=
  if announcedLength buffer ≤ length.toNat - evmAbiStringHeaderLength then
    l = .done ((buffer.drop evmAbiStringHeaderLength).take (announcedLength buffer))
  else ∃ status, l = .raised (.taintSession ref status)

/-- The two reads end like this on every buffer with room for a header. -/
theorem ends_readTxPayload (hs : HasBuffer ref start length s)
    (hbuffer : buffer.length = length.toNat) (hroom : evmAbiStringHeaderLength ≤ length.toNat) :
    EndsOn ref start length buffer (readTxPayloadDataLength ref >>= readTxPayloadData ref) s 2
      (TxPayload ref length buffer) := by
  rw [readTxPayloadDataLength, Prog.bind_eq, Prog.bind_eq, Prog.bind_assoc]
  refine endsOn_getSession hs fun session hstart hlength => ?_
  rw [hstart, Prog.bind_eq, Prog.bind_assoc]
  have hheader : (buffer.drop (start - start).toNat).take 64 = buffer.take 64 := by
    rw [UInt64.sub_self]
    rfl
  have hheaderLength : (buffer.take 64).length = 64 := by
    rw [List.length_take, hbuffer]
    exact Nat.min_eq_left hroom
  have hword : ((buffer.take 64).drop 32).take 32 = (buffer.drop 32).take 32 := by
    rw [List.drop_take, List.take_take]
    rfl
  refine endsOn_readMemory (n := 1) hs ((congrArg List.length hheader).trans hheaderLength)
    fun s' hs' => ?_
  show EndsOn ref start length buffer ((getPayloadLength ref
    ((((buffer.drop (start - start).toNat).take 64).drop 32).take 32)).bind
      (readTxPayloadData ref)) s' 1 _
  rw [hheader, hword]
  have hwordLength : ((buffer.drop 32).take 32).length = 32 := by
    rw [← hword, List.length_take, List.length_drop, hheaderLength]
    rfl
  have hlimit := length.toNat_lt
  rcases getPayloadLength_eq ref ((buffer.drop 32).take 32) (by rw [hwordLength]; decide) with
    ⟨hlarge, status, hthrow⟩ | ⟨m, hpure, hnumber⟩
  · -- The number does not fit 64 bits, so it is more than the buffer has room for.
    have hno : ¬ announcedLength buffer ≤ length.toNat - evmAbiStringHeaderLength := by
      have hannounced : announcedLength buffer = bigEndian ((buffer.drop 32).take 32) := rfl
      omega
    rw [hthrow]
    refine endsOn_settled rfl (fun _ _ hsame => by cases hsame) ?_
    rw [TxPayload, if_neg hno]
    exact ⟨status, rfl⟩
  · rw [hpure]
    show EndsOn ref start length buffer (readTxPayloadData ref m) s' 1 _
    have hannounced : announcedLength buffer = m.toNat := hnumber.symm
    have hlimit : (length - 64).toNat = length.toNat - evmAbiStringHeaderLength :=
      UInt64.toNat_sub_of_le _ _ (UInt64.le_iff_toNat_le.mpr hroom)
    refine endsOn_getSession hs' fun session hstart hlength => ?_
    rw [hstart, hlength]
    by_cases hfits : announcedLength buffer ≤ length.toNat - evmAbiStringHeaderLength
    · have hle : ¬ m > length - UInt64.ofNat evmAbiStringHeaderLength := by
        refine UInt64.not_lt.mpr (UInt64.le_iff_toNat_le.mpr ?_)
        rw [← hannounced]
        exact Nat.le_trans hfits (Nat.le_of_eq hlimit.symm)
      have haddress : (buffer.drop (start + 64 - start).toNat).take m.toNat =
          (buffer.drop evmAbiStringHeaderLength).take (announcedLength buffer) := by
        rw [UInt64.add_comm, UInt64.add_sub_cancel, hannounced]
        rfl
      have hdata : ((buffer.drop (start + 64 - start).toNat).take m.toNat).length = m.toNat := by
        rw [haddress, List.length_take, List.length_drop, hbuffer, hannounced]
        exact Nat.min_eq_left (hannounced ▸ hfits)
      rw [if_neg hle]
      show EndsOn ref start length buffer (readMemory ref (start + 64) m) s' 1 _
      rw [← Prog.bind_pure (readMemory ref (start + 64) m)]
      refine endsOn_readMemory (n := 0) hs' hdata fun s'' _ => ?_
      refine endsOn_settled rfl (fun _ _ hsame => by cases hsame) ?_
      rw [TxPayload, if_pos hfits, haddress]
    · have hgt : m > length - UInt64.ofNat evmAbiStringHeaderLength := by
        refine UInt64.lt_iff_toNat_lt.mpr ?_
        rw [← hannounced]
        exact Nat.lt_of_le_of_lt (Nat.le_of_eq hlimit) (Nat.lt_of_not_le hfits)
      rw [if_pos hgt]
      refine endsOn_settled rfl (fun _ _ hsame => by cases hsame) ?_
      rw [TxPayload, if_neg hfits]
      exact ⟨_, rfl⟩

end EndsOn

/-- Other ends that follow. -/
theorem EndsOn.imp {α : Type} {ref : Nat} {start length : UInt64} {buffer : Bytes}
    {c : Handler α} {s : HandlerContext} {n : Nat} {P Q : Landing handlerSignature α → Prop}
    (hc : EndsOn ref start length buffer c s n P) (hPQ : ∀ l, P l → Q l) :
    EndsOn ref start length buffer c s n Q := by
  intro es l s' htrace hserves
  exact (hc es l s' htrace hserves).imp_right (hPQ l)

/-- A buffer with a string in front announces the length of its payload. -/
theorem announcedLength_evmAbiString {payload rest : Bytes}
    (hpayload : payload.length < 2 ^ 64) :
    announcedLength (evmAbiString payload ++ rest) = payload.length := by
  have hnumber : (UInt64.ofNat payload.length).toNat = payload.length := by
    rw [UInt64.toNat_ofNat']
    exact Nat.mod_eq_of_lt hpayload
  have hword : ((evmAbiString payload ++ rest).drop 32).take 32 =
      abiWord (UInt64.ofNat payload.length) := by
    rw [evmAbiString_eq, List.append_assoc, List.drop_left' (abiWord_length 32), List.append_assoc,
      List.take_left' (abiWord_length _)]
  have hannounced : announcedLength (evmAbiString payload ++ rest) =
      bigEndian (((evmAbiString payload ++ rest).drop 32).take 32) := rfl
  rw [hannounced, hword, bigEndian_abiWord, hnumber]

/-- The payload of a string comes behind the two words. -/
theorem payload_evmAbiString (payload rest : Bytes) :
    ((evmAbiString payload ++ rest).drop evmAbiStringHeaderLength).take payload.length =
      payload := by
  have hheader : (abiWord 32 ++ abiWord (UInt64.ofNat payload.length)).length = 64 := by
    rw [List.length_append, abiWord_length, abiWord_length]
  have hsplit : evmAbiString payload ++ rest =
      (abiWord 32 ++ abiWord (UInt64.ofNat payload.length)) ++ (payload ++ rest) := by
    rw [evmAbiString_eq, List.append_assoc, List.append_assoc, List.append_assoc]
  rw [hsplit, show evmAbiStringHeaderLength = 64 from rfl, List.drop_left' hheader,
    List.take_left' rfl]

/-- A word of 32 bytes that stands for a number. -/
def IsWord (word : Bytes) (n : Nat) : Prop :=
  word.length = 32 ∧ bigEndian word = n

theorem isWord_abiWord (value : UInt64) : IsWord (abiWord value) value.toNat :=
  ⟨abiWord_length value, bigEndian_abiWord value⟩

theorem isWord_addressWord (address : EvmAddressType) :
    IsWord (addressWord address) (bigEndian address.1) :=
  ⟨addressWord_length address, bigEndian_append _ (isNull_replicate 12)⟩

/-- The bytes that are written for a string, in front of a buffer with room for
    them, are read back as its payload; on any buffer with room for a header the
    reads succeed exactly if the number in its second word fits behind the header,
    and return as many bytes; and the metadata is five words, from which it can be
    told. -/
theorem encodings_lossless :
    (∀ ref payload drive s, Connected ref s → ∃ k, (writeEvmAbiString ref payload drive).seg s =
      (.parked (.call (.writeMemory drive.start (evmAbiString payload))) k, s)) ∧
    (∀ ref start length payload rest s, HasBuffer ref start length s →
      (evmAbiString payload ++ rest).length = length.toNat → 64 + payload.length ≤ length.toNat →
      EndsOn ref start length (evmAbiString payload ++ rest)
        (readTxPayloadDataLength ref >>= readTxPayloadData ref) s 2 fun l => l = .done payload) ∧
    (∀ ref start length buffer s, HasBuffer ref start length s → buffer.length = length.toNat →
      64 ≤ length.toNat → EndsOn ref start length buffer
        (readTxPayloadDataLength ref >>= readTxPayloadData ref) s 2 fun l =>
          let n := bigEndian ((buffer.drop 32).take 32)
          if n ≤ length.toNat - 64 then l = .done ((buffer.drop 64).take n)
          else ∃ status, l = .raised (.taintSession ref status)) ∧
    (∀ metadata, ∃ w₁ w₂ w₃ w₄ w₅, IsWord w₁ (bigEndian metadata.msgSender.1) ∧
      IsWord w₂ metadata.blockNumber.toNat ∧ IsWord w₃ metadata.timestamp.toNat ∧
      IsWord w₄ metadata.epochIndex.toNat ∧ IsWord w₅ metadata.inputIndex.toNat ∧
      evmAbiEncodedInputMetadata metadata = w₁ ++ (w₂ ++ (w₃ ++ (w₄ ++ w₅)))) ∧
    Function.Injective evmAbiEncodedInputMetadata := by
  refine ⟨?_, ?_, ?_, ?_, evmAbiEncodedInputMetadata_injective⟩
  · intro ref payload drive s hs
    have hparked : ((writeEvmAbiString ref payload drive).bind .pure).seg s = _ := seg_connected hs
    rw [Prog.bind_pure] at hparked
    exact ⟨_, hparked⟩
  · intro ref start length payload rest s hs hbuffer hfits
    have hlimit := length.toNat_lt
    have hroom : evmAbiStringHeaderLength ≤ length.toNat :=
      Nat.le_trans (Nat.le_add_right 64 _) hfits
    have hannounced : announcedLength (evmAbiString payload ++ rest) = payload.length :=
      announcedLength_evmAbiString (by omega)
    refine (ends_readTxPayload hs hbuffer hroom).imp fun l hl => ?_
    have hle : payload.length ≤ length.toNat - evmAbiStringHeaderLength :=
      Nat.le_sub_of_add_le (Nat.add_comm 64 _ ▸ hfits)
    rw [TxPayload, hannounced, if_pos hle, payload_evmAbiString] at hl
    exact hl
  · intro ref start length buffer s hs hbuffer hroom
    exact ends_readTxPayload hs hbuffer hroom
  · intro metadata
    refine ⟨_, _, _, _, _, isWord_addressWord _, isWord_abiWord _, isWord_abiWord _,
      isWord_abiWord _, isWord_abiWord _, ?_⟩
    rw [evmAbiEncodedInputMetadata_eq, List.append_nil]

/-- Three bytes in a buffer of a page. -/
theorem encodings_lossless_sample :
    EndsOn 0 0x60001000 4096 (evmAbiString [1, 2, 3] ++ List.replicate 4029 0)
      (readTxPayloadDataLength 0 >>= readTxPayloadData 0) sampleContext 2 fun l =>
        l = .done [1, 2, 3] :=
  encodings_lossless.2.1 0 0x60001000 4096 [1, 2, 3] (List.replicate 4029 0) sampleContext
    ⟨sampleSession, rfl, rfl, rfl, rfl⟩
    (by rw [List.length_append, evmAbiString_length, List.length_replicate]; rfl) (by decide)

end ServerManager
