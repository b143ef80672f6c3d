import ServerManager.Theory.Bookkeeping
import ServerManager.Theory.Contracts

/-!
# Recording an Input

What `process_pending_inputs` writes down once the machine has stopped. An input
that was skipped leaves a zero leaf in each tree. For one that was accepted the
manager asks the machine server for a proof of each hashes range, reads the range,
and asks for a proof of each entry in it; `Gathered` is the record of these
answers, one after the other, so that whatever is assumed of the server can be
applied to it later.

## Main definitions

* `Obtained`: The server answered a call.
* `Keccaks`, `Collected`, `Gathered`: The answers behind the records of an input.
* `Aborted`: What holds when an exception leaves the processing of inputs.

## Theorems

* `turns_pushLeaf`, `turns_collectOutputs`: One kind of output.
* `turns_recordInput`: An input is recorded.
-/

namespace ServerManager

open Coroutine

variable [Keccak]

/-- In state `m` the server answered a call with `b`, and went to `m'`. -/
def Obtained (server : Server) (c : MachineCall) (m : server.State) (b : c.Body)
    (m' : server.State) : Prop :=
  ∃ r, server.Replies (.call c) m r m' ∧ r.status.isOk = true ∧ r.body = b

/-- The hashes of some entries of a range, from `entry` on, each with its proof in
    the range. -/
inductive Keccaks (server : Server) (range : MemoryRangeDescriptionType) (hashes : Bytes) :
    Nat → server.State → List KeccakType → server.State → Prop
  | nil {entry : Nat} {m : server.State} : Keccaks server range hashes entry m [] m
  | cons {entry : Nat} {m m₁ m' : server.State} {keccak : HashType}
      {message : MerkleTreeProofMessage} {proof sliced : ProofType} {rest : List KeccakType}
      (hbytes : (hashes.drop (entry * keccakSize)).take keccakSize = keccak.1)
      (hcall : Obtained server (.getProof (range.start + UInt64.ofNat (entry * keccakSize))
        (UInt64.ofNat log2KeccakSize)) m message m₁)
      (hproof : getProtoMerkleTreeProof message = .ok proof)
      (hsliced : proof.slice hasherType (castInt range.log2Size) log2KeccakSize = .ok sliced)
      (hrest : Keccaks server range hashes (entry + 1) m₁ rest m') :
      Keccaks server range hashes entry m
        ({ keccak := keccak, keccakInHashes := sliced } :: rest) m'

/-- The proof of a hashes range, and the hashes in it. -/
structure Collected (server : Server) (range : MemoryRangeDescriptionType) (m : server.State)
    (proof : ProofType) (keccaks : List KeccakType) (m' : server.State) : Prop where
  range : ∃ m₁ m₂ message hashes,
    Obtained server (.getProof range.start range.log2Size) m message m₁ ∧
    getProtoMerkleTreeProof message = .ok proof ∧
    Obtained server (.readMemory range.config.start range.config.length) m₁ hashes m₂ ∧
    hashes.length = range.config.length.toNat ∧
    countNullTerminatedEntries hashes keccakSize = keccaks.length ∧
    Keccaks server range hashes 0 m₂ keccaks m'

/-- Where the records of an accepted input come from. -/
def Gathered (server : Server) : Soundness := fun ranges hash data =>
  ∃ m m₁ m₂ m₃ bytes vouchers notices,
    Collected server ranges.voucherHashes m data.voucherHashesInMachine vouchers m₁ ∧
    data.vouchers.map VoucherType.hash = vouchers.map some ∧
    Collected server ranges.noticeHashes m₁ data.noticeHashesInMachine notices m₂ ∧
    data.notices.map NoticeType.hash = notices.map some ∧
    Obtained server .getRootHash m₂ bytes m₃ ∧ getProtoHash bytes = .ok hash

/-! ### The answers of the server -/

section Contracts

variable {server : Server} {ref : Nat} {v : Own} {m : server.State} {x : SessionType} {α : Type}
variable {E : Exn → server.State → SessionType → Prop}

omit [Keccak] in
theorem turns_getProof {address log2Size : UInt64} {R : ProofType → server.State → SessionType → Prop}
    (hR : ∀ message m' proof, Obtained server (.getProof address log2Size) m message m' →
      getProtoMerkleTreeProof message = .ok proof → R proof m' x)
    (hE : ∀ e m', Fails ref e → E e m' x) :
    Turns server ref v R E (getProof ref address log2Size) m x := by
  refine turns_bind (turns_callOrTaint (fun r m' hr hok => ?_) fun r m' status _ => hE _ m' (.taint status))
  generalize hdecoded : getProtoMerkleTreeProof r.body = decoded
  exact turns_ofExcept (fun proof hproof => hR r.body m' proof ⟨r, hr, hok, rfl⟩ (hdecoded.trans hproof))
    fun what _ => hE _ m' (.exception what)

omit [Keccak] in
theorem turns_getRootHash {R : HashType → server.State → SessionType → Prop}
    (hR : ∀ bytes m' hash, Obtained server .getRootHash m bytes m' →
      getProtoHash bytes = .ok hash → R hash m' x)
    (hE : ∀ e m', Fails ref e → E e m' x) :
    Turns server ref v R E (getRootHash ref) m x := by
  refine turns_bind (turns_callOrTaint (fun r m' hr hok => ?_) fun r m' status _ => hE _ m' (.taint status))
  exact turns_ofExcept (fun hash hhash => hR r.body m' hash ⟨r, hr, hok, rfl⟩ hhash)
    fun what _ => hE _ m' (.exception what)

omit [Keccak] in
theorem turns_readMemoryRange {range : MemoryRangeConfig}
    {R : Bytes → server.State → SessionType → Prop}
    (hR : ∀ data m', Obtained server (.readMemory range.start range.length) m data m' →
      data.length = range.length.toNat → R data m' x)
    (hE : ∀ e m', Fails ref e → E e m' x) :
    Turns server ref v R E (readMemoryRange ref range) m x := by
  refine turns_bind (turns_callOrTaint (fun r m' hr hok => ?_) fun r m' status _ => hE _ m' (.taint status))
  refine turns_ite (fun _ => ?_) fun hlength => ?_
  · exact turns_throw (hE _ m' (.taint _))
  · exact turns_pure (hR r.body m' ⟨r, hr, hok, rfl⟩ (not_not.1 hlength))

omit [Keccak] in
theorem turns_getHash {bytes : Bytes} {R : HashType → server.State → SessionType → Prop}
    (hR : ∀ hash : HashType, bytes = hash.1 → R hash m x) (hE : ∀ e, Fails ref e → E e m x) :
    Turns server ref v R E (getHash ref bytes) m x := by
  unfold getHash
  by_cases h : bytes.length = 32
  · rw [dif_pos h]
    exact turns_pure (hR ⟨bytes, h⟩ rfl)
  · rw [dif_neg h]
    exact turns_throw (hE _ (.taint _))

theorem turns_getKeccaks {range : MemoryRangeDescriptionType} {hashes : Bytes} {entry n : Nat}
    {R : List KeccakType → server.State → SessionType → Prop}
    (hR : ∀ keccaks m', keccaks.length = n → Keccaks server range hashes entry m keccaks m' →
      R keccaks m' x)
    (hE : ∀ e m', Fails ref e → E e m' x) :
    Turns server ref v R E (getKeccaks ref range hashes entry n) m x := by
  induction n generalizing entry m R with
  | zero => exact turns_pure (hR [] m rfl .nil)
  | succ n ih =>
      refine turns_bind (turns_getHash (fun keccak hbytes => ?_) fun e => hE e m)
      refine turns_bind (turns_getProof (fun message m₁ proof hcall hproof => ?_) hE)
      generalize hslice : proof.slice hasherType (castInt range.log2Size) log2KeccakSize = decoded
      refine turns_bind (turns_ofExcept (fun sliced hsliced => ?_) fun what _ => hE _ _ (.exception what))
      refine turns_bind (ih fun rest m' hlen hrest => turns_pure ?_)
      exact hR _ m' (by simp [hlen]) (.cons hbytes hcall hproof (hslice.trans hsliced) hrest)

/-! ### The trees of the epoch -/

/-- What is left when an exception leaves the processing of inputs: only one that is
    answered with an error spares the books. -/
def Aborted (sound : Soundness) (index : UInt64) (e : Exn) (x : SessionType) : Prop :=
  x.activeEpochIndex = index ∧ ∀ status, e = .finishErrorYieldNone status → SessionKept sound x

omit [Keccak] in
theorem fails_ne {e : Exn} (he : Fails ref e) (status : Status) : e ≠ .finishErrorYieldNone status := by
  rintro rfl
  cases he

/-- A failure that taints the session needs no books. -/
theorem aborted_fails {sound : Soundness} {e : Exn} (he : Fails ref e) :
    Aborted sound x.activeEpochIndex e x :=
  ⟨rfl, fun status hstatus => absurd hstatus (fails_ne he status)⟩

/-- The session with one of its epochs replaced. -/
def SessionType.withEpoch (x : SessionType) (index : UInt64) (e : EpochType) : SessionType :=
  { x with epochs := x.epochs.insert index e }

omit [Keccak] in
@[simp]
theorem withEpoch_lookup (index : UInt64) (e : EpochType) :
    (x.withEpoch index e).epochs.lookup index = some e := AList.lookup_insert _

omit [Keccak] in
@[simp]
theorem withEpoch_withEpoch (index : UInt64) (e e' : EpochType) :
    (x.withEpoch index e).withEpoch index e' = x.withEpoch index e' := by
  simp [SessionType.withEpoch]

/-- One leaf is pushed. -/
theorem turns_pushLeaf {index : UInt64} {kind : OutputKind} {k : Nat} {hash : HashType}
    {e : EpochType} {R : ProofType → server.State → SessionType → Prop}
    (he : x.epochs.lookup index = some e)
    (hR : ∀ tree proof, (kind.tree e).pushBack hasherType hash = .ok tree →
      R proof m (x.withEpoch index (kind.setTree tree e)))
    (hE : ∀ e' x', Fails ref e' → x'.activeEpochIndex = x.activeEpochIndex → E e' m x') :
    Turns server ref v R E (pushLeaf ref index kind k hash) m x := by
  refine turns_bind (turns_getEpoch fun e₁ he₁ => ?_)
  rw [he] at he₁
  cases he₁
  refine turns_bind (turns_ofExcept (fun tree htree => ?_) fun what _ => hE _ _ (.exception what) rfl)
  refine turns_bind (turns_modifyEpoch fun e₁ he₁ => ?_)
  rw [he] at he₁
  cases he₁
  exact turns_ofExcept (fun proof _ => hR tree proof htree)
    fun what _ => hE _ _ (.exception what) rfl

/-- One kind of output of an accepted input. -/
theorem turns_collectOutputs {index : UInt64} {kind : OutputKind} {k count : Nat} {e : EpochType}
    {R : ProofType × ProofType × List KeccakType → server.State → SessionType → Prop}
    (he : x.epochs.lookup index = some e)
    (hR : ∀ inMachine inEpoch keccaks m' tree,
      Collected server (kind.range x.memoryRange) m inMachine keccaks m' →
      keccaks.length = count → (kind.tree e).pushBack hasherType inMachine.targetHash = .ok tree →
      R (inMachine, inEpoch, keccaks) m' (x.withEpoch index (kind.setTree tree e)))
    (hE : ∀ e' m' x', Fails ref e' → x'.activeEpochIndex = x.activeEpochIndex → E e' m' x') :
    Turns server ref v R E (collectOutputs ref index kind k count) m x := by
  refine turns_bind (turns_getSession fun address => ?_)
  have hranges : (x.placed address).memoryRange = x.memoryRange := rfl
  rw [hranges]
  refine turns_bind (turns_getProof (fun message m₁ inMachine hcall hproof => ?_)
    fun e' m' he' => hE e' m' x he' rfl)
  refine turns_bind (turns_pushLeaf he (fun tree inEpoch htree => ?_) fun e' => hE e' m₁)
  have hfails : ∀ e' m', Fails ref e' → E e' m' (x.withEpoch index (kind.setTree tree e)) :=
    fun e' m' he' => hE e' m' _ he' rfl
  refine turns_bind (turns_readMemoryRange (fun hashes m₂ hread hlength => ?_) hfails)
  refine turns_ite (fun _ => turns_throw (hfails _ m₂ (.taint _))) fun hcount => ?_
  refine turns_bind (turns_getKeccaks (fun keccaks m' hlen hkeccaks => turns_pure ?_) hfails)
  have hn : countNullTerminatedEntries hashes keccakSize = keccaks.length := hlen.symm
  refine hR inMachine inEpoch keccaks m' tree
    ⟨m₁, m₂, message, hashes, hcall, hproof, hread, hlength, hn, hkeccaks⟩ ?_ htree
  exact hlen.trans (not_not.1 hcount)

/-! ### The record of an input -/

omit [Keccak] in
/-- Hashes that are given one by one to as many outputs. -/
theorem zipWith_hash {β : Type} {f : β → KeccakType → β} {g : β → Option KeccakType}
    (hset : ∀ o k, g (f o k) = some k) {outputs : List β} {keccaks : List KeccakType}
    (hlen : keccaks.length = outputs.length) :
    (outputs.zipWith f keccaks).map g = keccaks.map some := by
  refine List.ext_getElem (by simp [hlen]) fun k hk hk' => ?_
  simp [hset]

omit [Keccak] in
theorem isSome_of_map {β : Type} {hash : β → Option KeccakType} {outputs : List β}
    {keccaks : List KeccakType} (hmap : outputs.map hash = keccaks.map some) {o : β}
    (ho : o ∈ outputs) : (hash o).isSome = true := by
  have hmem : hash o ∈ keccaks.map some := hmap ▸ List.mem_map_of_mem ho
  rcases List.mem_map.1 hmem with ⟨k, -, hk⟩
  rw [← hk]
  rfl

/-- The books after an input was recorded in the active epoch. -/
theorem SessionKept.record {sound : Soundness} {x' : SessionType} (hx : SessionKept sound x)
    {e : EpochType} {i : ProcessedInputType} {hash : HashType}
    {vouchersTree noticesTree : CompleteMerkleTree HashType}
    (hepochs : x'.epochs = x.epochs.insert x.activeEpochIndex { e with
      vouchersTree := vouchersTree
      noticesTree := noticesTree
      mostRecentMachineHash := hash
      processedInputs := e.processedInputs ++ [i] })
    (hhash : hash = i.mostRecentMachineHash)
    (he : x.epochs.lookup x.activeEpochIndex = some e)
    (hvouchers : e.vouchersTree.pushBack hasherType (voucherLeaf i) = .ok vouchersTree)
    (hnotices : e.noticesTree.pushBack hasherType (noticeLeaf i) = .ok noticesTree)
    (hi : Recorded (sound x.memoryRange) e.processedInputs.length i)
    (hindex : x'.activeEpochIndex = x.activeEpochIndex)
    (hranges : x'.memoryRange = x.memoryRange) : SessionKept sound x' := by
  have hkept : EpochKept (sound x.memoryRange) { e with
      vouchersTree := vouchersTree
      noticesTree := noticesTree
      mostRecentMachineHash := hash
      processedInputs := e.processedInputs ++ [i] } :=
    (hx.kept _ e he).record hvouchers hnotices hi ⟨rfl, rfl⟩ rfl hhash
  exact (hx.setActive he hkept rfl rfl fun hempty => by simp at hempty).congr hepochs hindex hranges

/-- An accepted input. -/
theorem turns_recordAccepted {index number : UInt64} {run : InputRun} {e : EpochType}
    (hx : SessionKept (Gathered server) x) (hindex : x.activeEpochIndex = index)
    (he : x.epochs.lookup index = some e) (hrun : run.skipReason = .accepted) :
    Turns server ref v
      (fun _ _ x' => SessionKept (Gathered server) x' ∧ x'.activeEpochIndex = index)
      (fun e _ x' => Aborted (Gathered server) index e x')
      (recordAccepted ref index number e.processedInputs.length run) m x := by
  subst hindex
  have hfails : ∀ e' x', Fails ref e' → x'.activeEpochIndex = x.activeEpochIndex →
      Aborted (Gathered server) x.activeEpochIndex e' x' := by
    intro e' x' he' hsame
    exact hsame ▸ aborted_fails he'
  refine turns_bind (turns_collectOutputs he (fun voucherProof inEpoch vouchers m₁ vouchersTree
    hvouchers hvlen hvpush => ?_) fun e' _ x' he' hsame => hfails e' x' he' hsame)
  refine turns_bind (turns_collectOutputs (withEpoch_lookup _ _) (fun noticeProof inEpoch' notices
    m₂ noticesTree hnotices hnlen hnpush => ?_) fun e' _ x' he' hsame => hfails e' x' he' hsame)
  rw [withEpoch_withEpoch]
  refine turns_bind (turns_getRootHash (fun bytes m₃ hash hroot hhash => ?_)
    fun e' _ he' => hfails e' _ he' rfl)
  refine turns_bind (turns_modifyEpoch fun e₁ he₁ => ?_)
  rw [withEpoch_lookup] at he₁
  cases he₁
  refine turns_modifySession (fun _ => rfl) ⟨?_, rfl⟩
  have hvmap := zipWith_hash (f := VoucherType.setHash) (g := VoucherType.hash)
    (fun _ _ => rfl) hvlen
  have hnmap := zipWith_hash (f := NoticeType.setHash) (g := NoticeType.hash)
    (fun _ _ => rfl) hnlen
  apply hx.record
  case he => exact he
  case hepochs =>
    show (AList.insert x.activeEpochIndex _ (AList.insert x.activeEpochIndex _ x.epochs) : Epochs) = _
    rw [AList.insert_insert]
    rfl
  case hhash => rfl
  case hvouchers => exact hvpush
  case hnotices => exact hnpush
  case hindex => rfl
  case hranges => rfl
  case hi =>
    refine ⟨rfl, iff_of_true hrun ⟨_, rfl⟩, ?_, ?_, ?_⟩
    · rintro _ ⟨⟩ o ho
      exact isSome_of_map hvmap ho
    · rintro _ ⟨⟩ o ho
      exact isSome_of_map hnmap ho
    · rintro _ ⟨⟩
      exact ⟨m, m₁, m₂, m₃, bytes, vouchers, notices, hvouchers, hvmap, hnotices, hnmap, hroot,
        hhash⟩

/-- What is left when a wait for a check-in fails: the session as it was, but for the
    stub. -/
theorem aborted_wait {sound : Soundness} (hx : SessionKept sound x) (status : Status)
    (stub : Bool) : Aborted sound x.activeEpochIndex (.finishErrorYieldNone status)
      { x with serverStub := stub } :=
  ⟨rfl, fun _ _ => hx.congr rfl rfl rfl⟩

omit [Keccak] in
theorem turns_snapshot {R : Unit → server.State → SessionType → Prop} (hR : ∀ m', R () m' x)
    (hE : ∀ m' status, E (.taintSession ref status) m' x) :
    Turns server ref v R E (snapshot ref) m x := by
  unfold snapshot
  exact turns_callOrTaint (c := .snapshot) (fun _ m' _ _ => hR m') fun _ m' status _ => hE m' status

omit [Keccak] in
theorem turns_rollback {R : Unit → server.State → SessionType → Prop} (hR : ∀ m', R () m' x)
    (hE : ∀ m' status, E (.taintSession ref status) m' x) :
    Turns server ref v R E (rollback ref) m x := by
  unfold rollback
  exact turns_callOrTaint (c := .rollback) (fun _ m' _ _ => hR m') fun _ m' status _ => hE m' status

/-- Waiting for a check-in has no other way to fail. -/
theorem and_aborted {sound : Soundness} {P : Prop} (hx : SessionKept sound x) (hP : P) :
    P ∧ (∀ status, Aborted sound x.activeEpochIndex (.taintSession ref status) x) ∧
      ∀ status, Aborted sound x.activeEpochIndex (.finishErrorYieldNone status)
        { x with serverStub := false } :=
  ⟨hP, fun status => aborted_fails (.taint status), fun status => aborted_wait hx status false⟩

/-- A skipped input. -/
theorem turns_recordSkipped {self : HandlerId} {sound : Soundness} {index number : UInt64}
    {run : InputRun} {e : EpochType} (hwaiting : v.waiting = none) (hx : SessionKept sound x)
    (hindex : x.activeEpochIndex = index) (he : x.epochs.lookup index = some e)
    (hrun : run.skipReason ≠ .accepted) :
    Turns server ref v (fun _ _ x' => SessionKept sound x' ∧ x'.activeEpochIndex = index)
      (fun e _ x' => Aborted sound index e x')
      (recordSkipped self ref index number e.processedInputs.length run) m x := by
  subst hindex
  have hfails : ∀ e' x', Fails ref e' → x'.activeEpochIndex = x.activeEpochIndex →
      Aborted sound x.activeEpochIndex e' x' := by
    intro e' x' he' hsame
    exact hsame ▸ aborted_fails he'
  refine turns_bind (turns_trigger hwaiting (turns_rollback (fun m₁ => and_aborted hx ?_)
    fun _ status => aborted_fails (.taint status)))
  refine turns_bind (turns_pushLeaf he (fun vouchersTree inEpoch hvpush => ?_) hfails)
  refine turns_bind (turns_pushLeaf (withEpoch_lookup _ _) (fun noticesTree inEpoch' hnpush => ?_)
    hfails)
  rw [withEpoch_withEpoch]
  refine turns_bind (turns_getRootHash (fun bytes m₂ hash hroot hhash => ?_)
    fun e' _ he' => hfails e' _ he' rfl)
  refine turns_bind (turns_getEpoch fun e₁ he₁ => ?_)
  rw [withEpoch_lookup] at he₁
  cases he₁
  refine turns_ite (fun _ => turns_throw (hfails _ _ (.taint _) rfl)) fun hsame => ?_
  refine turns_modifyEpoch fun e₁ he₁ => ⟨?_, rfl⟩
  rw [withEpoch_lookup] at he₁
  cases he₁
  apply hx.record
  case he => exact he
  case hepochs =>
    show (AList.insert x.activeEpochIndex _ (AList.insert x.activeEpochIndex _ x.epochs) : Epochs) = _
    rw [AList.insert_insert]
    rfl
  case hhash => rfl
  case hvouchers => exact hvpush
  case hnotices => exact hnpush
  case hindex => rfl
  case hranges => rfl
  case hi =>
    refine ⟨rfl, iff_of_false hrun ?_, ?_, ?_, ?_⟩
    · rintro ⟨data, hdata⟩
      cases hdata
    · rintro data hdata
      cases hdata
    · rintro data hdata
      cases hdata
    · rintro data hdata
      cases hdata

/-- An input is recorded. -/
theorem turns_recordInput {self : HandlerId} {index number : UInt64} {run : InputRun}
    {e : EpochType} (hwaiting : v.waiting = none) (hx : SessionKept (Gathered server) x)
    (hindex : x.activeEpochIndex = index) (he : x.epochs.lookup index = some e) :
    Turns server ref v
      (fun _ _ x' => SessionKept (Gathered server) x' ∧ x'.activeEpochIndex = index)
      (fun e _ x' => Aborted (Gathered server) index e x')
      (recordInput self ref index number e.processedInputs.length run) m x :=
  turns_ite (turns_recordAccepted hx hindex he) (turns_recordSkipped hwaiting hx hindex he)

end Contracts

end ServerManager
