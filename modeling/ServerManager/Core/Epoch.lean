import ServerManager.Core.Process

/-!
# Finishing Epochs

What FinishEpoch does to an epoch and to the session, and the response it
builds from the finished epoch: one proof for every voucher and notice of every
accepted input.

## Main definitions

* `finishEpoch`, `startNewEpoch`: Closing an epoch and opening the next.
* `setProtoOutputValidityProof`: The validity proof of one output.
* `setProtoFinishEpochResponse`: The response.
-/

namespace ServerManager

open Coroutine

variable [Keccak]

/-- The loop of `finish_epoch`: every proof is asked for again, now that all
    leaves are present. An exception leaves the inputs after it untouched. -/
def refreshProofs (vouchersTree noticesTree : CompleteMerkleTree HashType) :
    List ProcessedInputType → List ProcessedInputType × Option String
  | [] => ([], none)
  | i :: rest =>
    let address := i.epochInputIndex <<< UInt64.ofNat log2KeccakSize
    match vouchersTree.getProof address log2KeccakSize with
    | .error what => (i :: rest, some what)
    | .ok voucherProof =>
      let i := { i with voucherHashesInEpoch := voucherProof }
      match noticesTree.getProof address log2KeccakSize with
      | .error what => (i :: rest, some what)
      | .ok noticeProof =>
        let i := { i with noticeHashesInEpoch := noticeProof }
        let (rest, what) := refreshProofs vouchersTree noticesTree rest
        (i :: rest, what)

/-- `finish_epoch` as a function: the epoch it leaves, and the exception. -/
def finishedEpoch (e : EpochType) : EpochType × Option String :=
  let (processedInputs, what) := refreshProofs e.vouchersTree e.noticesTree e.processedInputs
  ({ e with state := .finished, processedInputs := processedInputs }, what)

/-- `finish_epoch`. -/
def finishEpoch (ref : Nat) (index : UInt64) : Handler Unit := do
  let e ← getEpoch ref index
  modifyEpoch ref index fun e => (finishedEpoch e).1
  match (finishedEpoch e).2 with
  | some what => .throw (.stdException what)
  | none => return

/-- The session after `start_new_epoch`. -/
def withNewEpoch (prevEpoch : EpochType) (session : SessionType) : SessionType :=
  let index := session.activeEpochIndex + 1
  { session with
    activeEpochIndex := index
    epochs := session.epochs.insert index { EpochType.new with
      epochIndex := index
      mostRecentMachineHash := prevEpoch.mostRecentMachineHash } }

/-- `start_new_epoch`. -/
def startNewEpoch (ref : Nat) (index : UInt64) : Handler Unit := do
  let prevEpoch ← getEpoch ref index
  modifySession ref (withNewEpoch prevEpoch)

/-- The siblings of a proof from the target up, as the serializer adds them. -/
def siblingsUpwards (p : ProofType) : List HashType :=
  (List.range (p.log2RootSize - p.log2TargetSize)).map fun i => p.siblingAt (p.log2TargetSize + i)

/-- `set_proto_output_validity_proof`. -/
def setProtoOutputValidityProof (e : EpochType) (inputIndex : UInt64)
    (outputHashesInEpoch : ProofType) (outputIndex : UInt64) (outputHashInHashes : ProofType) :
    Except String OutputValidityProof := do
  let vouchersEpochRootHash ← e.vouchersTree.getRootHash
  let noticesEpochRootHash ← e.noticesTree.getRootHash
  return {
    inputIndexWithinEpoch := inputIndex
    outputIndexWithinInput := outputIndex
    outputHashesRootHash := outputHashInHashes.rootHash
    vouchersEpochRootHash := vouchersEpochRootHash
    noticesEpochRootHash := noticesEpochRootHash
    machineStateHash := e.mostRecentMachineHash
    outputHashInOutputHashesSiblings := siblingsUpwards outputHashInHashes
    outputHashesInEpochSiblings := siblingsUpwards outputHashesInEpoch }

/-- The proofs of the outputs of one kind of one input, the first of them being
    output number `outputIndex`. A missing hash throws. -/
def outputProofs (e : EpochType) (i : ProcessedInputType) (outputEnum : OutputEnum)
    (outputHashesInEpoch : ProofType) :
    Nat → List (Option KeccakType) → Except String (List ProofMessage)
  | _, [] => .ok []
  | _, none :: _ => .error "bad optional access"
  | outputIndex, some hash :: rest => do
    let validity ← setProtoOutputValidityProof e i.epochInputIndex outputHashesInEpoch
      (UInt64.ofNat outputIndex) hash.keccakInHashes
    let proofs ← outputProofs e i outputEnum outputHashesInEpoch (outputIndex + 1) rest
    return {
      inputIndex := i.inputIndex
      outputIndex := UInt64.ofNat outputIndex
      outputEnum := outputEnum
      validity := validity
      context := getAbiEncodedContext e.epochIndex } :: proofs

/-- The proofs of one processed input: vouchers, then notices. -/
def inputProofs (e : EpochType) (i : ProcessedInputType) : Except String (List ProofMessage) :=
  match i.processed with
  | .exception _ => .ok []
  | .accepted data => do
    let vouchers ← outputProofs e i .voucher i.voucherHashesInEpoch 0
      (data.vouchers.map VoucherType.hash)
    let notices ← outputProofs e i .notice i.noticeHashesInEpoch 0
      (data.notices.map NoticeType.hash)
    return vouchers ++ notices

/-- The proofs of all processed inputs, in order. -/
def epochProofs (e : EpochType) : List ProcessedInputType → Except String (List ProofMessage)
  | [] => .ok []
  | i :: rest => do
    let proofs ← inputProofs e i
    let others ← epochProofs e rest
    return proofs ++ others

/-- `set_proto_finish_epoch_response`. -/
def setProtoFinishEpochResponse (e : EpochType) : Except String FinishEpochResponse := do
  let vouchersEpochRootHash ← e.vouchersTree.getRootHash
  let noticesEpochRootHash ← e.noticesTree.getRootHash
  let proofs ← epochProofs e e.processedInputs
  return {
    machineHash := e.mostRecentMachineHash
    vouchersEpochRootHash := vouchersEpochRootHash
    noticesEpochRootHash := noticesEpochRootHash
    proofs := proofs }

end ServerManager
