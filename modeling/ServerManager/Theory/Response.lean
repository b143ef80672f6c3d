import ServerManager.Theory.Bookkeeping

/-!
# The Response of FinishEpoch

What `set_proto_finish_epoch_response` makes of an epoch whose books are in
order. Every hash of an output is there and so is the root of each tree, so
nothing throws, and the proofs come in the order of the inputs, the vouchers of
each before its notices.

A client checks a proof by folding the siblings one by one, from the target up,
with the bits of an index telling left from right. This is the climb of
`merkle_tree_proof` with the siblings in the order of the serializer.

## Main definitions

* `foldSiblings`: The check of a client.
* `outputProof`, `inputProofMessages`: The proofs in the response.

## Theorems

* `foldSiblings_upwards`: Folding the siblings of a proof is `bubble_up`.
* `epochProofs_eq`: The proofs, when every hash is there.
* `EpochKept.response`: The response of an epoch with its books in order.
-/

namespace ServerManager

open FullTree

section Fold

variable {Hash : Type} (H : Hasher Hash)

/-- Fold a hash with the siblings on its path, the lowest first. The lowest bit of
    the index tells whether the hash is the right child of its parent. -/
def foldSiblings : Nat → Hash → List Hash → Hash
  | _, hash, [] => hash
  | index, hash, sibling :: rest =>
    foldSiblings (index / 2)
      (if index % 2 = 1 then H.concat sibling hash else H.concat hash sibling) rest

/-- Folding is climbing with the index for an address. -/
theorem foldSiblings_climb (address : Nat) (sibling : Nat → Hash) (level n : Nat) (hash : Hash) :
    foldSiblings H (address / 2 ^ level) hash ((List.range n).map fun i => sibling (level + i)) =
      climb H address sibling level n hash := by
  induction n generalizing level hash with
  | zero => rfl
  | succ n ih =>
      have hnext : address / 2 ^ level / 2 = address / 2 ^ (level + 1) := by
        rw [Nat.div_div_eq_div_mul, Nat.pow_succ]
      have hbit : (address / 2 ^ level % 2 = 1) = (address.testBit level = true) := by
        rw [Nat.testBit_eq_decide_div_mod_eq, decide_eq_true_eq]
      have hrest : ((fun i => sibling (level + i)) ∘ Nat.succ) =
          fun i => sibling (level + 1 + i) := by
        funext i
        simp only [Function.comp_apply]
        congr 1
        omega
      rw [List.range_succ_eq_map, List.map_cons, List.map_map, hrest, Nat.add_zero, foldSiblings,
        hnext, ih, climb]
      simp only [hbit]

end Fold

variable [Keccak]

/-- A client that folds the siblings of a proof computes what `bubble_up` does. -/
theorem foldSiblings_upwards (p : ProofType) (hash : HashType) :
    foldSiblings hasherType (p.targetAddress.toNat / 2 ^ p.log2TargetSize) hash (siblingsUpwards p) =
      p.bubbleUp hasherType hash :=
  foldSiblings_climb hasherType p.targetAddress.toNat p.siblingAt p.log2TargetSize _ hash

/-! ### The proofs in the response -/

section Proofs

variable (e : EpochType) (vouchersRoot noticesRoot : HashType)

/-- The proof of output `k` of an input. -/
def outputProof (i : ProcessedInputType) (outputEnum : OutputEnum) (inEpoch : ProofType) (k : Nat)
    (hash : KeccakType) : ProofMessage where
  inputIndex := i.inputIndex
  outputIndex := UInt64.ofNat k
  outputEnum := outputEnum
  validity :=
    { inputIndexWithinEpoch := i.epochInputIndex
      outputIndexWithinInput := UInt64.ofNat k
      outputHashesRootHash := hash.keccakInHashes.rootHash
      vouchersEpochRootHash := vouchersRoot
      noticesEpochRootHash := noticesRoot
      machineStateHash := e.mostRecentMachineHash
      outputHashInOutputHashesSiblings := siblingsUpwards hash.keccakInHashes
      outputHashesInEpochSiblings := siblingsUpwards inEpoch }
  context := getAbiEncodedContext e.epochIndex

/-- The proofs of an input: none if it was skipped, else those of its vouchers and
    after them those of its notices. -/
def inputProofMessages (i : ProcessedInputType) : List ProofMessage :=
  match i.processed with
  | .accepted data =>
    (data.vouchers.filterMap VoucherType.hash).mapIdx
      (outputProof e vouchersRoot noticesRoot i .voucher i.voucherHashesInEpoch) ++
    (data.notices.filterMap NoticeType.hash).mapIdx
      (outputProof e vouchersRoot noticesRoot i .notice i.noticeHashesInEpoch)
  | .exception _ => []

variable {e vouchersRoot noticesRoot}

omit [Keccak] in
theorem outputProofs_eq (hvouchers : e.vouchersTree.getRootHash = .ok vouchersRoot)
    (hnotices : e.noticesTree.getRootHash = .ok noticesRoot) (i : ProcessedInputType)
    (outputEnum : OutputEnum) (inEpoch : ProofType) (n : Nat) (hashes : List KeccakType) :
    outputProofs e i outputEnum inEpoch n (hashes.map some) =
      .ok (hashes.mapIdx fun k => outputProof e vouchersRoot noticesRoot i outputEnum inEpoch (n + k)) := by
  induction hashes generalizing n with
  | nil => rfl
  | cons hash rest ih =>
      have hcount : ∀ k, n + 1 + k = n + (k + 1) := fun k => by omega
      rw [List.map_cons, outputProofs, setProtoOutputValidityProof, hvouchers, hnotices, ih,
        List.mapIdx_cons]
      simp only [hcount]
      rfl

omit [Keccak] in
/-- Hashes that are all there. -/
theorem map_some_filterMap {β : Type} {hash : β → Option KeccakType} {outputs : List β}
    (hall : ∀ o ∈ outputs, (hash o).isSome) : outputs.map hash = (outputs.filterMap hash).map some := by
  induction outputs with
  | nil => rfl
  | cons o rest ih =>
      rcases Option.isSome_iff_exists.1 (hall o List.mem_cons_self) with ⟨h, ho⟩
      rw [List.filterMap_cons_some ho, List.map_cons, List.map_cons, ho,
        ih fun o' ho' => hall o' (List.mem_cons_of_mem _ ho')]

omit [Keccak] in
theorem inputProofs_eq (hvouchers : e.vouchersTree.getRootHash = .ok vouchersRoot)
    (hnotices : e.noticesTree.getRootHash = .ok noticesRoot) {i : ProcessedInputType}
    (hv : ∀ data, i.processed = .accepted data → ∀ o ∈ data.vouchers, o.hash.isSome)
    (hn : ∀ data, i.processed = .accepted data → ∀ o ∈ data.notices, o.hash.isSome) :
    inputProofs e i = .ok (inputProofMessages e vouchersRoot noticesRoot i) := by
  rw [inputProofs, inputProofMessages]
  cases hprocessed : i.processed with
  | exception data => rfl
  | accepted data =>
      dsimp only
      rw [map_some_filterMap (hv data hprocessed), map_some_filterMap (hn data hprocessed),
        outputProofs_eq hvouchers hnotices, outputProofs_eq hvouchers hnotices]
      simp only [Nat.zero_add]
      rfl

omit [Keccak] in
/-- The proofs of all inputs, in order. -/
theorem epochProofs_eq (hvouchers : e.vouchersTree.getRootHash = .ok vouchersRoot)
    (hnotices : e.noticesTree.getRootHash = .ok noticesRoot) {inputs : List ProcessedInputType}
    (hv : ∀ i ∈ inputs, ∀ data, i.processed = .accepted data → ∀ o ∈ data.vouchers, o.hash.isSome)
    (hn : ∀ i ∈ inputs, ∀ data, i.processed = .accepted data → ∀ o ∈ data.notices, o.hash.isSome) :
    epochProofs e inputs = .ok (inputs.flatMap (inputProofMessages e vouchersRoot noticesRoot)) := by
  induction inputs with
  | nil => rfl
  | cons i rest ih =>
      have hrest := ih (fun j hj => hv j (List.mem_cons_of_mem _ hj))
        fun j hj => hn j (List.mem_cons_of_mem _ hj)
      rw [epochProofs, inputProofs_eq hvouchers hnotices (hv i List.mem_cons_self)
        (hn i List.mem_cons_self), hrest, List.flatMap_cons]
      rfl

end Proofs

/-- The response of an epoch with its books in order. -/
theorem EpochKept.response {sound : HashType → AcceptedDataType → Prop} {e : EpochType}
    (he : EpochKept sound e) : ∃ vouchersRoot noticesRoot,
      e.vouchersTree.getRootHash = .ok vouchersRoot ∧ e.noticesTree.getRootHash = .ok noticesRoot ∧
      setProtoFinishEpochResponse e = .ok {
        machineHash := e.mostRecentMachineHash
        vouchersEpochRootHash := vouchersRoot
        noticesEpochRootHash := noticesRoot
        proofs := e.processedInputs.flatMap (inputProofMessages e vouchersRoot noticesRoot) } := by
  have hvouchers := he.vouchersTree.stores.getRootHash
  have hnotices := he.noticesTree.stores.getRootHash
  -- an input that is recorded has all its hashes
  have hrecorded : ∀ i ∈ e.processedInputs, ∃ k, Recorded sound k i := by
    intro i hi
    rcases List.getElem?_of_mem hi with ⟨k, hk⟩
    exact ⟨k, he.recorded k i hk⟩
  refine ⟨_, _, hvouchers, hnotices, ?_⟩
  rw [setProtoFinishEpochResponse, hvouchers, hnotices, epochProofs_eq hvouchers hnotices
    (fun i hi => (hrecorded i hi).choose_spec.vouchers)
    fun i hi => (hrecorded i hi).choose_spec.notices]
  rfl

end ServerManager
