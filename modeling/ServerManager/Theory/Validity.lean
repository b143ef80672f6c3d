import ServerManager.Theory.MachineProofs
import ServerManager.Theory.Integrity

/-!
# Validity Proofs

What FinishEpoch hands to a client that wants to execute vouchers on chain: one
proof for each output of each input that was accepted, and nothing else, such that
the siblings of each lead from the entry of the output in the memory of the
machine to the hash of its memory range, and from there to the root of the epoch.

The machine server is one that tells the truth about its machine. The epochs are
those of any session that a sequence of requests can lead to, and whatever lists
of inputs are put into the active one after that and drained.

## Main definitions

* `outputKeys`: The outputs of an input, in the order of their proofs.
* `Verified`: What a client can check of a proof.
* `ProvesOutputs`: The response of FinishEpoch for an epoch.
* `fillEpoch`: Inputs are put into an epoch and processed.
* `ServedRun`: One request after the other, answered by one machine server.

## Theorems

* `EpochKept.fold_leaf`: The siblings in the trees of an epoch.
* `EpochKept.provesOutputs`: The response for an epoch with its books in order.
* `outputs_proved`: The same in every run.
-/

namespace ServerManager

open Coroutine FullTree

variable [Keccak]

/-! ### The response for an epoch -/

/-- The output that a proof is about: its input, by its index and by its place in the
    epoch, and its number among the outputs of the input, twice. -/
structure OutputKey where
  inputIndex : UInt64
  inputIndexWithinEpoch : UInt64
  outputEnum : OutputEnum
  outputIndex : UInt64
  outputIndexWithinInput : UInt64

/-- Output `k` of an input. -/
def outputKey (i : ProcessedInputType) (outputEnum : OutputEnum) (k : Nat) : OutputKey where
  inputIndex := i.inputIndex
  inputIndexWithinEpoch := i.epochInputIndex
  outputEnum := outputEnum
  outputIndex := UInt64.ofNat k
  outputIndexWithinInput := UInt64.ofNat k

/-- All outputs of an input, the vouchers before the notices. -/
def outputKeys (i : ProcessedInputType) : List OutputKey :=
  match i.processed with
  | .accepted data => (List.range data.vouchers.length).map (outputKey i .voucher) ++
      (List.range data.notices.length).map (outputKey i .notice)
  | .exception _ => []

/-- The output a proof claims to be about. -/
def ProofMessage.key (p : ProofMessage) : OutputKey where
  inputIndex := p.inputIndex
  inputIndexWithinEpoch := p.validity.inputIndexWithinEpoch
  outputEnum := p.outputEnum
  outputIndex := p.outputIndex
  outputIndexWithinInput := p.validity.outputIndexWithinInput

/-- The hashes range of a kind of output. -/
def MemoryRangesType.hashes (ranges : MemoryRangesType) : OutputEnum → MemoryRangeDescriptionType
  | .voucher => ranges.voucherHashes
  | .notice => ranges.noticeHashes

/-- The hashes of the outputs of a kind. -/
def AcceptedDataType.hashes (data : AcceptedDataType) : OutputEnum → List KeccakType
  | .voucher => data.vouchers.filterMap VoucherType.hash
  | .notice => data.notices.filterMap NoticeType.hash

/-- The root hash of the tree of a kind of output. -/
def FinishEpochResponse.epochRoot (response : FinishEpochResponse) : OutputEnum → HashType
  | .voucher => response.vouchersEpochRootHash
  | .notice => response.noticesEpochRootHash

/-- What a client can check of a proof for an output of input `i`, if it knows what
    was in the machine when that input had been processed. -/
structure Verified (memory : Nat → UInt8) (ranges : MemoryRangesType)
    (response : FinishEpochResponse) (i : ProcessedInputType) (p : ProofMessage) : Prop where
  machine : i.mostRecentMachineHash = machineRoot memory
  entry : ∃ data hash, i.processed = .accepted data ∧
    (data.hashes p.outputEnum)[p.validity.outputIndexWithinInput.toNat]? = some hash ∧
    hash.keccak.1 = memoryBytes memory ((ranges.hashes p.outputEnum).start.toNat +
      p.validity.outputIndexWithinInput.toNat * keccakSize) keccakSize
  rangeLevels : log2KeccakSize + p.validity.outputHashInOutputHashesSiblings.length =
    (ranges.hashes p.outputEnum).log2Size.toNat
  inRange : foldSiblings hasherType p.validity.outputIndexWithinInput.toNat
      (entryNode memory (ranges.hashes p.outputEnum) p.validity.outputIndexWithinInput.toNat)
      p.validity.outputHashInOutputHashesSiblings = p.validity.outputHashesRootHash
  epochLevels : log2KeccakSize + p.validity.outputHashesInEpochSiblings.length = log2RootSize
  inEpoch : foldSiblings hasherType p.validity.inputIndexWithinEpoch.toNat
      p.validity.outputHashesRootHash p.validity.outputHashesInEpochSiblings =
    response.epochRoot p.outputEnum
  roots : p.validity.vouchersEpochRootHash = response.vouchersEpochRootHash ∧
    p.validity.noticesEpochRootHash = response.noticesEpochRootHash
  machineHash : p.validity.machineStateHash = response.machineHash

/-- FinishEpoch of an epoch answers with a proof for each output of each input that
    was accepted, in order, and each of them can be checked. -/
structure ProvesOutputs {State : Type} (memory : State → Nat → UInt8) (ranges : MemoryRangesType)
    (e : EpochType) (response : FinishEpochResponse) : Prop where
  finished : (finishedEpoch e).2 = none
  built : setProtoFinishEpochResponse (finishedEpoch e).1 = .ok response
  accepted : ∀ i ∈ e.processedInputs, i.status = .accepted ↔ ∃ data, i.processed = .accepted data
  keys : response.proofs.map ProofMessage.key = e.processedInputs.flatMap outputKeys
  verified : ∀ p ∈ response.proofs, ∃ i ∈ e.processedInputs, ∃ m,
    p.key ∈ outputKeys i ∧ Verified (memory m) ranges response i p

/-- The siblings of a leaf in a tree of an epoch lead to the root of the tree, with the
    bits of the position of the leaf. -/
theorem Stores.fold_leaf {tree : CompleteMerkleTree HashType} {leaves : List HashType}
    (hrep : Stores hasherType epochSizes tree leaves) {k : Nat} (hroom : k < epochSizes.capacity)
    {leaf root : HashType} (hleaf : leaves[k]? = some leaf) {p : ProofType}
    (hproof : tree.getProof (leafAddress k log2KeccakSize) log2KeccakSize = .ok p)
    (hroot : tree.getRootHash = .ok root) :
    log2KeccakSize + (siblingsUpwards p).length = log2RootSize ∧
    foldSiblings hasherType k leaf (siblingsUpwards p) = root := by
  rcases hrep.getProof_fields hproof with ⟨haddress, hsize, hrootSize, -⟩
  have htarget : p.log2TargetSize = log2KeccakSize := Int.ofNat.inj hsize
  have hrow : epochSizes.row hasherType leaves k = leaf := by
    simp [TreeSizes.row, padded, hleaf]
  -- the proof was made from the top down, and a client folds it from the leaf up
  have hbubble := hrep.bubbleUp_leaf (z := epochSizes) hroom hproof fun _ _ => rfl
  rw [hrow, ← foldSiblings_upwards, haddress, htarget] at hbubble
  have hindex : (leafAddress k log2KeccakSize).toNat / 2 ^ log2KeccakSize = k := by
    have hposition := leafAddress_shiftRight epochSizes hroom (Nat.le_refl _)
    rw [Nat.shiftRight_eq_div_pow, Nat.sub_self, Nat.pow_zero, Nat.div_one] at hposition
    exact hposition
  rw [hindex] at hbubble
  have hsame := hrep.getRootHash
  rw [hroot, Except.ok.injEq] at hsame
  refine ⟨?_, hbubble.trans hsame.symm⟩
  rw [siblingsUpwards, List.length_map, List.length_range, htarget, hrootSize]
  rfl

section Epoch

variable {sound : HashType → AcceptedDataType → Prop} {e : EpochType}

/-- What becomes of the inputs when an epoch is finished. -/
theorem EpochKept.finished_inputs (he : EpochKept sound e) :
    (finishedEpoch e).1.processedInputs.length = e.processedInputs.length ∧
    ∀ (k : Nat) i', (finishedEpoch e).1.processedInputs[k]? = some i' →
      ∃ i p q, e.processedInputs[k]? = some i ∧ i' = i.refreshed p q ∧
        e.vouchersTree.getProof (leafAddress k log2KeccakSize) log2KeccakSize = .ok p ∧
        e.noticesTree.getProof (leafAddress k log2KeccakSize) log2KeccakSize = .ok q := by
  rcases refreshProofs_ok fun i hi => he.proofs hi with ⟨inputs', hrefresh, hlen, hall⟩
  have hinputs : (finishedEpoch e).1.processedInputs = inputs' := by simp [finishedEpoch, hrefresh]
  rw [hinputs]
  refine ⟨hlen, fun k i' hi' => ?_⟩
  rcases hall k i' hi' with ⟨i, p, q, hi, hrefreshed, hp, hq⟩
  rw [(he.recorded k i hi).position] at hp hq
  exact ⟨i, p, q, hi, hrefreshed, hp, hq⟩

omit [Keccak] in
/-- The proofs for the hashes of some outputs are in their order. -/
theorem keys_outputProofs {β : Type} {hash : β → Option KeccakType} {outputs : List β}
    (hall : ∀ o ∈ outputs, (hash o).isSome) (vouchersRoot noticesRoot : HashType)
    (i : ProcessedInputType) (outputEnum : OutputEnum) (inEpoch : ProofType) :
    ((outputs.filterMap hash).mapIdx
      (outputProof e vouchersRoot noticesRoot i outputEnum inEpoch)).map ProofMessage.key =
      (List.range outputs.length).map (outputKey i outputEnum) := by
  have hlen : (outputs.filterMap hash).length = outputs.length := by
    have hmap := congrArg List.length (map_some_filterMap hall)
    rw [List.length_map, List.length_map] at hmap
    exact hmap.symm
  refine List.ext_getElem (by simp [hlen]) fun k hk hk' => ?_
  simp [outputProof, outputKey, ProofMessage.key]

variable {memory : Nat → UInt8} {ranges : MemoryRangesType} {response : FinishEpochResponse}
  {i i' : ProcessedInputType} {data : AcceptedDataType} {outputEnum : OutputEnum}
  {inEpoch : ProofType} {vouchersRoot noticesRoot target : HashType} {j k : Nat} {hash : KeccakType}

/-- The proof for an output of an input. -/
theorem verified_outputProof (hprocessed : i.processed = .accepted data)
    (hmachine : i.mostRecentMachineHash = machineRoot memory)
    (hproved : RangeProved memory (ranges.hashes outputEnum) target (data.hashes outputEnum))
    (hj : (data.hashes outputEnum)[j]? = some hash) (hk : i'.epochInputIndex.toNat = k)
    (hlevels : log2KeccakSize + (siblingsUpwards inEpoch).length = log2RootSize)
    (hfold : foldSiblings hasherType k target (siblingsUpwards inEpoch) =
      response.epochRoot outputEnum)
    (hroots : vouchersRoot = response.vouchersEpochRootHash ∧
      noticesRoot = response.noticesEpochRootHash)
    (hhash : e.mostRecentMachineHash = response.machineHash) :
    Verified memory ranges response i
      (outputProof e vouchersRoot noticesRoot i' outputEnum inEpoch j hash) := by
  have hentry := hproved.entries j hash hj
  -- the number of an output is not cut off
  have hindex : (UInt64.ofNat j).toNat = j := by
    have hinside := hentry.inside
    have hlength := (ranges.hashes outputEnum).length.toNat_lt
    have hkeccak : keccakSize = 32 := rfl
    rw [hkeccak] at hinside
    rw [UInt64.toNat_ofNat']
    exact Nat.mod_eq_of_lt (by omega)
  refine ⟨hmachine, ⟨data, hash, hprocessed, ?_, ?_⟩, hentry.levels, ?_, hlevels, ?_, hroots, hhash⟩
  · show (data.hashes outputEnum)[(UInt64.ofNat j).toNat]? = some hash
    rw [hindex]
    exact hj
  · show hash.keccak.1 = memoryBytes memory (_ + (UInt64.ofNat j).toNat * keccakSize) keccakSize
    rw [hindex]
    exact hentry.bytes
  · show foldSiblings hasherType (UInt64.ofNat j).toNat
      (entryNode memory (ranges.hashes outputEnum) (UInt64.ofNat j).toNat) _ =
        hash.keccakInHashes.rootHash
    rw [hindex, hentry.root]
    exact hentry.fold
  · show foldSiblings hasherType i'.epochInputIndex.toNat hash.keccakInHashes.rootHash
      (siblingsUpwards inEpoch) = _
    rw [hk, hentry.root, ← hproved.target]
    exact hfold

omit [Keccak] in
/-- The proofs of an input are for its outputs, in order. -/
theorem keys_inputProofMessages {k : Nat} (hi : Recorded sound k i) (p q : ProofType) :
    (inputProofMessages e vouchersRoot noticesRoot (i.refreshed p q)).map ProofMessage.key =
      outputKeys i := by
  have hprocessed : (i.refreshed p q).processed = i.processed := rfl
  rw [inputProofMessages, outputKeys, hprocessed]
  cases hdata : i.processed with
  | exception data => rfl
  | accepted data =>
      dsimp only
      rw [List.map_append, keys_outputProofs (hi.vouchers data hdata),
        keys_outputProofs (hi.notices data hdata)]
      rfl

/-- The proof of an input in one of the trees. -/
def ProcessedInputType.hashesInEpoch (i : ProcessedInputType) : OutputEnum → ProofType
  | .voucher => i.voucherHashesInEpoch
  | .notice => i.noticeHashesInEpoch

omit [Keccak] in
/-- Where a proof in the response comes from. -/
theorem mem_inputProofMessages {p : ProofMessage}
    (hp : p ∈ inputProofMessages e vouchersRoot noticesRoot i) :
    ∃ data outputEnum j hash, i.processed = .accepted data ∧
      (data.hashes outputEnum)[j]? = some hash ∧
      p = outputProof e vouchersRoot noticesRoot i outputEnum (i.hashesInEpoch outputEnum) j hash := by
  rw [inputProofMessages] at hp
  cases hdata : i.processed with
  | exception data =>
      rw [hdata] at hp
      cases hp
  | accepted data =>
      rw [hdata] at hp
      dsimp only at hp
      rw [List.mem_append, List.mem_mapIdx, List.mem_mapIdx] at hp
      rcases hp with ⟨j, hj, rfl⟩ | ⟨j, hj, rfl⟩
      · exact ⟨data, .voucher, j, _, rfl, List.getElem?_eq_getElem hj, rfl⟩
      · exact ⟨data, .notice, j, _, rfl, List.getElem?_eq_getElem hj, rfl⟩

/-- The response for an epoch with its books in order. -/
theorem EpochKept.provesOutputs {State : Type} {memory : State → Nat → UInt8}
    (he : EpochKept sound e)
    (hsound : ∀ hash data, sound hash data → ∃ m, InputProved (memory m) ranges hash data) :
    ∃ response, ProvesOutputs memory ranges e response := by
  have hfinish := he.finish
  rcases hfinish.2.response with ⟨vouchersRoot, noticesRoot, hvroot, hnroot, hresponse⟩
  have hvouchersRoot : e.vouchersTree.getRootHash = .ok vouchersRoot := hvroot
  have hnoticesRoot : e.noticesTree.getRootHash = .ok noticesRoot := hnroot
  rcases he.finished_inputs with ⟨hlen, hinputs⟩
  refine ⟨_, hfinish.1, hresponse, fun i hi => ?_, ?_, fun p hp => ?_⟩
  · rcases List.getElem?_of_mem hi with ⟨k, hk⟩
    exact (he.recorded k i hk).status
  · -- input by input; the proofs that were asked for again are not in the keys
    show ((finishedEpoch e).1.processedInputs.flatMap _).map _ = _
    rw [List.map_flatMap, List.flatMap_def, List.flatMap_def]
    congr 1
    refine List.ext_getElem (by simp [hlen]) fun k hk hk' => ?_
    rw [List.length_map] at hk hk'
    rcases hinputs k _ (List.getElem?_eq_getElem hk) with ⟨i, q, q', hi, hrefreshed, -, -⟩
    have hsame : e.processedInputs[k] = i := by simpa [List.getElem?_eq_getElem hk'] using hi
    rw [List.getElem_map, List.getElem_map, hrefreshed, hsame]
    exact keys_inputProofMessages (he.recorded k i hi) q q'
  · rcases List.mem_flatMap.1 hp with ⟨i', hi', hp⟩
    rcases List.getElem?_of_mem hi' with ⟨k, hk⟩
    rcases hinputs k i' hk with ⟨i, q, q', hi, rfl, hq, hq'⟩
    have hrecorded := he.recorded k i hi
    rcases mem_inputProofMessages hp with ⟨data, outputEnum, j, hash, hdata, hj, rfl⟩
    have hdata : i.processed = .accepted data := hdata
    rcases hsound _ _ (hrecorded.sound data hdata) with ⟨m, hproved⟩
    refine ⟨i, List.mem_of_getElem? hi, m, ?_, ?_⟩
    · -- its key is one of those of the input
      have hkeys : (inputProofMessages (finishedEpoch e).1 vouchersRoot noticesRoot
          (i.refreshed q q')).map ProofMessage.key = outputKeys i :=
        keys_inputProofMessages hrecorded q q'
      rw [← hkeys]
      exact List.mem_map_of_mem hp
    · have hlt : k < e.processedInputs.length := (List.getElem?_eq_some_iff.1 hi).1
      have hroom : k < epochSizes.capacity := by
        have hlen := he.vouchersTree.room
        rw [List.length_map] at hlen
        omega
      have hposition : i.epochInputIndex.toNat = k := by
        have hcapacity : epochSizes.capacity = 2 ^ 32 := rfl
        rw [hrecorded.position, UInt64.toNat_ofNat']
        omega
      have hleaf : ∀ f : ProcessedInputType → HashType,
          (e.processedInputs.map f)[k]? = some (f i) := fun f => by rw [List.getElem?_map, hi]; rfl
      cases outputEnum with
      | voucher =>
          have htarget : voucherLeaf i = data.voucherHashesInMachine.targetHash := by
            rw [voucherLeaf, hdata]
          rcases he.vouchersTree.stores.fold_leaf hroom (hleaf voucherLeaf) hq hvouchersRoot with
            ⟨hlevels, hfold⟩
          rw [htarget] at hfold
          exact verified_outputProof hdata hproved.root hproved.vouchers hj hposition hlevels hfold
            ⟨rfl, rfl⟩ rfl
      | notice =>
          have htarget : noticeLeaf i = data.noticeHashesInMachine.targetHash := by
            rw [noticeLeaf, hdata]
          rcases he.noticesTree.stores.fold_leaf hroom (hleaf noticeLeaf) hq' hnoticesRoot with
            ⟨hlevels, hfold⟩
          rw [htarget] at hfold
          exact verified_outputProof hdata hproved.root hproved.notices hj hposition hlevels hfold
            ⟨rfl, rfl⟩ rfl

end Epoch

/-! ### Runs -/

/-- Lists of inputs are put into an epoch and processed, one list after the other. -/
def fillEpoch (fuel : Nat) (self : HandlerId) (ref : Nat) (index : UInt64) :
    List (List InputType) → Handler Unit
  | [] => .pure ()
  | inputs :: rest => do
    modifyEpoch ref index fun e => { e with pendingInputs := e.pendingInputs ++ inputs }
    processPendingInputs fuel self ref index
    fillEpoch fuel self ref index rest

/-- One event, with what becomes of the machine server. -/
def servedStep (server : Server) (w : Manager × server.State) (e : Event × server.State) :
    Option (Manager × server.State) :=
  (step w.1 e.1).map fun w' => (w', e.2)

/-- One request after the other, answered by one machine server. -/
def ServedRun (server : Server) : Manager × server.State → Manager × server.State → Prop :=
  Runs (servedStep server) fun w e w' => OneByOne w.1 e.1 ∧ ServedBy server w.1 e.1 w.2 w'.2

section Run

variable {server : Server} {memory : server.State → Nat → UInt8} {hctx : HandlerContext}
  {w : Manager} {m₀ m : server.State} {base : Own}

/-- The invariant of a run that is served. -/
theorem dealing_served {w z : Manager × server.State} (h : Dealing server base w.1 w.2)
    (hrun : ServedRun server w z) : Dealing server base z.1 z.2 := by
  refine runs_invariant (I := fun w => Dealing server base w.1 w.2) hrun h ?_
  intro w₁ e w₂ h hstep hc
  rcases Option.map_eq_some_iff.1 hstep with ⟨w', hnext, rfl⟩
  exact h.next hnext hc.1 hc.2

/-- Filling an epoch keeps the books. -/
theorem turns_fillEpoch {ref fuel : Nat} {self : HandlerId} {index : UInt64} {v : Own}
    {x : SessionType} {batches : List (List InputType)} (hwaiting : v.waiting = none)
    (hx : SessionKept (Gathered server) x) (hindex : x.activeEpochIndex = index) :
    Turns server ref v
      (fun _ _ x' => SessionKept (Gathered server) x' ∧ x'.activeEpochIndex = index)
      (fun _ _ _ => True) (fillEpoch fuel self ref index batches) m x := by
  induction batches generalizing m x with
  | nil => exact turns_pure ⟨hx, hindex⟩
  | cons inputs rest ih =>
      subst hindex
      -- new inputs are pending, and the books are about those that were processed
      refine turns_bind (turns_modifyEpoch fun e he => ?_)
      have hkept : EpochKept (Gathered server x.memoryRange)
          { e with pendingInputs := e.pendingInputs ++ inputs } :=
        (hx.kept _ e he).congr rfl rfl rfl rfl
      have hset := hx.setActive he hkept rfl rfl fun hempty => ⟨hempty, rfl⟩
      refine turns_bind (turns_mono (turns_processPendingInputs hwaiting hset rfl) ?_
        fun _ _ _ _ => trivial)
      rintro - m' x' ⟨hx', hindex'⟩
      exact hindex' ▸ ih hx' hindex'

/-- The books of a session whose machine server tells the truth. -/
theorem SessionKept.provesOutputs {x : SessionType} (hfaithful : Faithful server memory)
    (hx : SessionKept (Gathered server) x) {index : UInt64} {e : EpochType}
    (he : x.epochs.lookup index = some e) :
    ∃ response, ProvesOutputs memory x.memoryRange e response :=
  (hx.kept index e he).provesOutputs fun _ _ =>
    gathered_proved hfaithful hx.voucherHashes hx.noticeHashes

/-- Whatever sequence of requests has led to a session that is not tainted, and
    whatever lists of inputs are then put into its active epoch and processed without
    tainting it: FinishEpoch of any of its epochs answers with one proof for each
    output of each input that was accepted, in order, and all of them can be checked. -/
theorem outputs_proved (hblank : Blank hctx) (hwaiting : hctx.waitingCheckin = none)
    (hfaithful : Faithful server memory) (hrun : ServedRun server (idle hctx, m₀) (w, m))
    (hrest : AtRest w) (hrunning : w.halted = none) {ref : Nat} {x : SessionType}
    (hx : w.shared.session = some (ref, x)) (htaint : x.tainted = false) :
    (∀ index e, x.epochs.lookup index = some e →
      ∃ response, ProvesOutputs memory x.memoryRange e response) ∧
    ∀ (fuel : Nat) (self : HandlerId) (batches : List (List InputType)),
      Turns server ref (own w.shared)
        (fun _ _ x' => ∀ index e, x'.epochs.lookup index = some e →
          ∃ response, ProvesOutputs memory x'.memoryRange e response)
        (fun _ _ _ => True) (fillEpoch fuel self ref x.activeEpochIndex batches) m x := by
  have hdealing : Dealing server (own hctx) w m :=
    dealing_served (z := (w, m)) (dealing_idle hblank hwaiting) hrun
  have horder := (hdealing.atRest hrest hrunning).1
  have hbooks : SessionKept (Gathered server) x :=
    (horder.books ref _ (own_found hx) htaint).congr rfl rfl rfl
  refine ⟨fun index e he => hbooks.provesOutputs hfaithful he, fun fuel self batches => ?_⟩
  refine turns_mono (turns_fillEpoch horder.waiting hbooks rfl) ?_ fun _ _ _ _ => trivial
  rintro - m' x' ⟨hx', -⟩ index e he
  exact hx'.provesOutputs hfaithful he

end Run

/-! ### A machine server that tells the truth -/

/-- What there is to say about an answer. -/
def Truth (m m' : Nat → UInt8) : (c : MachineCall) → c.Body → Prop
  | .getProof address log2Size, message =>
    m' = m ∧ ∃ p, Decodes message p ∧ ProofOf m address log2Size.toNat p
  | .readMemory address length, bytes =>
    m' = m ∧ bytes = memoryBytes m address.toNat length.toNat
  | .getRootHash, bytes => m' = m ∧ bytes = (machineRoot m).1
  | _, _ => True

/-- A server that does what it likes with its machine, and tells the truth about it. -/
def truthful : Server where
  State := Nat → UInt8
  Answers c m r m' := r.status.isOk = true → Truth m m' c r.body

theorem faithful_truthful : Faithful truthful id where
  getProof _ _ _ _ _ h hok := h hok
  readMemory _ _ _ _ _ h hok := h hok
  getRootHash _ _ _ h hok := h hok

/-- The proof of a node of the machine. -/
def machineProof (memory : Nat → UInt8) (address : UInt64) (level : Nat)
    (hlevel : level ≤ log2MachineRootSize) : ProofType where
  targetAddress := address
  log2TargetSize := level
  targetHash := machineNode memory level (address.toNat >>> level)
  log2RootSize := log2MachineRootSize
  rootHash := machineRoot memory
  siblingHashes := (List.range (log2MachineRootSize - level)).map fun i =>
    machineNode memory (log2MachineRootSize - 1 - i)
      ((address.toNat >>> (log2MachineRootSize - 1 - i)) ^^^ 1)
  rootPos := by decide
  targetLe := hlevel
  siblingsLength := by rw [List.length_map, List.length_range]

theorem proofOf_machineProof (memory : Nat → UInt8) (address : UInt64) {level : Nat}
    (hlevel : level ≤ log2MachineRootSize) :
    ProofOf memory address level (machineProof memory address level hlevel) :=
  ⟨rfl, rfl, rfl, rfl, rfl, fun k hlow hhigh =>
    @MerkleTreeProof.siblingAt_eq HashType _ _ _ _
      (fun k => machineNode memory k ((address.toNat >>> k) ^^^ 1)) rfl rfl k hlow hhigh⟩

/-- The reply to a request for a proof. -/
def proofReply (memory : Nat → UInt8) (address log2Size : UInt64) :
    CallReply (.getProof address log2Size) :=
  if h : log2Size.toNat ≤ log2MachineRootSize then
    ⟨default, setProtoMerkleTreeProof (machineProof memory address log2Size.toNat h)⟩
  else badReply (.call (.getProof address log2Size))

/-- The replies of a machine with a certain memory that waits for its first input. -/
def memoryReply (memory : Nat → UInt8) : (op : Op) → op.Reply
  | .call (.getProof address log2Size) => proofReply memory address log2Size
  | .call (.readMemory address length) =>
    ⟨default, memoryBytes memory address.toNat length.toNat⟩
  | .call .getRootHash => ⟨default, (machineRoot memory).1⟩
  | op => startReply op

theorem truth_proofReply (memory : Nat → UInt8) (address log2Size : UInt64)
    (hok : (proofReply memory address log2Size).status.isOk = true) :
    Truth memory memory (.getProof address log2Size) (proofReply memory address log2Size).body := by
  by_cases h : log2Size.toNat ≤ log2MachineRootSize
  · have hreply : proofReply memory address log2Size =
        ⟨default, setProtoMerkleTreeProof (machineProof memory address log2Size.toNat h)⟩ := dif_pos h
    rw [hreply]
    have hint : log2MachineRootSize < 2 ^ 31 := by decide
    refine ⟨rfl, _, ?_, proofOf_machineProof memory address h⟩
    exact
      { targetAddress := rfl
        log2TargetSize := castInt_ofNat (Nat.lt_of_le_of_lt h hint)
        targetHash := rfl
        log2RootSize := castInt_ofNat hint
        rootHash := rfl
        siblingHashes := (setProto_siblingHashes _).symm }
  · have hreply : proofReply memory address log2Size =
        badReply (.call (.getProof address log2Size)) := dif_neg h
    rw [hreply] at hok
    cases hok

/-- The replies are the truth. -/
theorem servedBy_memoryReply {memory : Nat → UInt8} {w : Manager} {h : HandlerId}
    {env : Environment} :
    ServedBy truthful w (.complete h (memoryReply memory) env) memory memory := by
  intro p hp
  by_cases haide : p.tag.aide = true
  · rw [if_pos haide]
  · rw [if_neg haide]
    cases p with
    | mk tag op k =>
        cases op with
        | call c =>
            refine Or.inl fun hok => ?_
            cases c with
            | getProof address log2Size => exact truth_proofReply memory address log2Size hok
            | readMemory address length => exact ⟨rfl, rfl⟩
            | getRootHash => exact ⟨rfl, rfl⟩
            | _ => exact trivial
        | _ => exact rfl

omit [Keccak] in
theorem servedBy_request {server : Server} {m : server.State} {w : Manager} {rpc : Rpc} :
    ServedBy server w (.request rpc) m m := rfl

/-- Played events are a run, if each of them is served and the server stays as it is. -/
theorem servedRun_of_play {server : Server} {m : server.State} {es : List Event} {w z : Manager}
    (hserved : ∀ e ∈ es, ∀ w, ServedBy server w e m m)
    (hplay : play step (fun w e _ => decide (OneByOne w e)) w es = some z) :
    ServedRun server (w, m) (z, m) := by
  induction es generalizing w with
  | nil =>
      cases hplay
      exact .refl _
  | cons e es ih =>
      rcases Option.bind_eq_some_iff.1 hplay with ⟨w₁, hstep, hrest⟩
      by_cases hone : OneByOne w e
      · rw [if_pos (decide_eq_true hone)] at hrest
        have hnext : servedStep server (w, m) (e, m) = some (w₁, m) := by simp [servedStep, hstep]
        refine runs_trans (.tail (e, m) (.refl _) hnext ⟨hone, hserved e List.mem_cons_self w⟩) ?_
        exact ih (fun e' he' => hserved e' (List.mem_cons_of_mem _ he')) hrest
      · simp [hone] at hrest

end ServerManager

/-! ### On the sample -/

namespace ServerManager

open Coroutine

attribute [local instance] keccak256

/-- StartSession on a machine with nothing but zeros in it. -/
def zeroEvents : List Event :=
  [.request (.startSession sampleStart), .checkIn, .complete 1 (memoryReply fun _ => 0) calm] ++
    List.replicate 7 (.complete 0 (memoryReply fun _ => 0) calm)

/-- The session of a machine with nothing but zeros in it, as it starts. -/
theorem outputs_proved_sample : ∃ w x, ServedRun truthful (idle emptyContext, fun _ => 0) (w, fun _ => 0) ∧
    w.shared.session = some (0, x) ∧ x.tainted = false ∧
    (∀ index e, x.epochs.lookup index = some e →
      ∃ response, ProvesOutputs (id : (Nat → UInt8) → Nat → UInt8) x.memoryRange e response) ∧
    ∀ (fuel : Nat) (self : HandlerId) (batches : List (List InputType)),
      Turns truthful 0 (own w.shared)
        (fun _ _ x' => ∀ index e, x'.epochs.lookup index = some e →
          ∃ response, ProvesOutputs (id : (Nat → UInt8) → Nat → UInt8) x'.memoryRange e response)
        (fun _ _ _ => True) (fillEpoch fuel self 0 x.activeEpochIndex batches) (fun _ => 0) x := by
  have hplay : (play step (fun w e _ => decide (OneByOne w e)) (idle emptyContext) zeroEvents).any
      (settledIn 0) = true := by decide +kernel
  rcases (Option.any_eq_true ..).1 hplay with ⟨w, hw, hsettled⟩
  rcases settledIn_spec hsettled with ⟨hrest, hrunning, x, hx, htaint, -⟩
  have hserved : ∀ e ∈ zeroEvents, ∀ w, ServedBy truthful w e (fun _ => 0) fun _ => 0 := by
    intro e he w
    simp only [zeroEvents, List.mem_append, List.mem_cons, List.mem_replicate, List.not_mem_nil,
      or_false] at he
    rcases he with (rfl | rfl | rfl) | ⟨-, rfl⟩
    · exact servedBy_request
    · exact servedBy_request
    · exact servedBy_memoryReply
    · exact servedBy_memoryReply
  have hrun := servedRun_of_play hserved hw
  have hproved := outputs_proved blank_empty rfl faithful_truthful hrun hrest hrunning hx htaint
  exact ⟨w, x, hrun, hx, htaint, hproved.1, hproved.2⟩

end ServerManager
