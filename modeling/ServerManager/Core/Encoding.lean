import ServerManager.Core.Context

/-!
# Encodings

The pure functions between the handlers and the bytes of the machine: the EVM
ABI encoding of inputs and of payload lengths, the fields of the HTIF
registers, and the conversions between Merkle proofs and protobuf messages.

## Main definitions

* `evmAbiEncodedInputMetadata`, `evmAbiString`: What is written to the machine.
* `getPayloadLength`, `countNullTerminatedEntries`: What is read back.
* `htifDevField`, `htifCmdField`, `htifDataField`, `htifReplaceDataField`: HTIF
  register fields.
* `getProtoHash`, `getProtoMerkleTreeProof`, `setProtoMerkleTreeProof`:
  Protobuf conversions.
-/

namespace ServerManager

/-! ### EVM ABI -/

def evmAbiUint64Length : Nat := 32
def evmAbiAddressLength : Nat := 32
def evmAbiOffsetLength : Nat := 32
def evmAbiLengthLength : Nat := 32
def evmAddressLength : Nat := 20
def voucherHeaderLength : Nat := evmAbiAddressLength + evmAbiOffsetLength + evmAbiLengthLength
def evmAbiInputMetadataLength : Nat := evmAbiAddressLength + 4 * evmAbiUint64Length
def evmAbiStringHeaderLength : Nat := evmAbiOffsetLength + evmAbiLengthLength

/-- `endian_store` of eight bytes in big-endian order. -/
def endianStore (value : UInt64) : Bytes :=
  (List.range 8).map fun i => (value >>> UInt64.ofNat (8 * (7 - i))).toUInt8

/-- `endian_load` of bytes in big-endian order. -/
def endianLoad (bytes : Bytes) : UInt64 :=
  bytes.foldl (fun value byte => (value <<< 8) ||| byte.toUInt64) 0

/-- Copy `data` over the bytes of a buffer from an offset on. -/
def copyAt (buffer : Bytes) (offset : Nat) (data : Bytes) : Bytes :=
  buffer.take offset ++ data ++ buffer.drop (offset + data.length)

/-- `evm_abi_encoded_input_metadata`. -/
def evmAbiEncodedInputMetadata (parsed : InputMetadataType) : Bytes :=
  let encoded := List.replicate evmAbiInputMetadataLength 0
  let encoded := copyAt encoded (evmAbiAddressLength - evmAddressLength) parsed.msgSender.1
  let encoded := copyAt encoded (evmAbiAddressLength + evmAbiUint64Length - 8)
    (endianStore parsed.blockNumber)
  let encoded := copyAt encoded (evmAbiAddressLength + 2 * evmAbiUint64Length - 8)
    (endianStore parsed.timestamp)
  let encoded := copyAt encoded (evmAbiAddressLength + 3 * evmAbiUint64Length - 8)
    (endianStore parsed.epochIndex)
  copyAt encoded (evmAbiAddressLength + 4 * evmAbiUint64Length - 8)
    (endianStore parsed.inputIndex)

/-- The bytes `write_evm_abi_string` sends: offset, length, and the payload. -/
def evmAbiString (payload : Bytes) : Bytes :=
  let header := List.replicate evmAbiStringHeaderLength 0
  let header := copyAt header (evmAbiOffsetLength - 8)
    (endianStore (UInt64.ofNat evmAbiOffsetLength))
  let header := copyAt header (evmAbiOffsetLength + evmAbiLengthLength - 8)
    (endianStore (UInt64.ofNat payload.length))
  header ++ payload

/-- `get_abi_encoded_context`. -/
def getAbiEncodedContext (epochIndex : UInt64) : Bytes :=
  copyAt (List.replicate evmAbiUint64Length 0) (evmAbiUint64Length - 8) (endianStore epochIndex)

/-- `is_null`: all bytes are zero. -/
def isNull (bytes : Bytes) : Bool := bytes.all fun byte => byte = 0

/-- Entries before the first null one, looking at no more than `n` of them. -/
def countEntries (entryLength : Nat) : Nat → Bytes → Nat
  | 0, _ => 0
  | n + 1, data =>
    if data.length < entryLength then 0
    else if isNull (data.take entryLength) then 0
    else countEntries entryLength n (data.drop entryLength) + 1

/-- `count_null_terminated_entries`. A string has fewer entries than bytes. -/
def countNullTerminatedEntries (data : Bytes) (entryLength : Nat) : Nat :=
  countEntries entryLength data.length data

/-- `get_hash`: the bytes as a hash, if there are 32 of them. -/
def getHash (ref : Nat) (bytes : Bytes) : Handler HashType :=
  if h : bytes.length = 32 then .pure ⟨bytes, h⟩
  else throwTaint ref .outOfRange "invalid hash length"

/-- `get_evm_address`: the bytes as an address, if there are 20 of them. -/
def getEvmAddress (ref : Nat) (bytes : Bytes) : Handler EvmAddressType :=
  if h : bytes.length = 20 then .pure ⟨bytes, h⟩
  else throwTaint ref .outOfRange "invalid address length"

/-- `get_payload_length`: a big-endian number whose bytes before the last eight
    must be zero. -/
def getPayloadLength (ref : Nat) (bytes : Bytes) : Handler UInt64 :=
  if isNull (bytes.take (bytes.length - 8)) then
    .pure (endianLoad (bytes.drop (bytes.length - 8)))
  else
    throwTaint ref .outOfRange "payload length too large"

/-! ### HTIF -/

def htifDevMask : UInt64 := 0xFF00000000000000
def htifCmdMask : UInt64 := 0x00FF000000000000
def htifDataMask : UInt64 := 0x0000FFFFFFFFFFFF
def htifDeviceYield : UInt64 := 2
def htifYieldManual : UInt64 := 1
def htifYieldReasonRxAccepted : UInt64 := 1
def htifYieldReasonRxRejected : UInt64 := 2
def htifYieldReasonTxVoucher : UInt64 := 3
def htifYieldReasonTxNotice : UInt64 := 4
def htifYieldReasonTxReport : UInt64 := 5
def htifYieldReasonTxException : UInt64 := 6

def rollupAdvanceState : UInt64 := 0
def rollupInspectState : UInt64 := 1

/-- `htif_replace_data_field`. -/
def htifReplaceDataField (reg data : UInt64) : UInt64 :=
  (reg &&& ~~~htifDataMask) ||| ((data <<< 0) &&& htifDataMask)

/-- `htif_dev_field`. -/
def htifDevField (reg : UInt64) : UInt64 := (reg &&& htifDevMask) >>> 56

/-- `htif_cmd_field`. -/
def htifCmdField (reg : UInt64) : UInt64 := (reg &&& htifCmdMask) >>> 48

/-- `htif_data_field`. -/
def htifDataField (reg : UInt64) : UInt64 := (reg &&& htifDataMask) >>> 0

/-- `check_htif_yield_manual`. -/
def checkHtifYieldManual (ref : Nat) (regname : String) (value : UInt64) : Handler Unit :=
  let dev := htifDevField value
  let cmd := htifCmdField value
  if dev ≠ htifDeviceYield then
    throwTaint ref .internal ("invalid dev field in " ++ regname ++ " (expected " ++
      toString htifDeviceYield ++ ", got " ++ toString dev ++ ")")
  else if cmd ≠ htifYieldManual then
    throwTaint ref .internal ("invalid cmd field in " ++ regname ++ " (expected " ++
      toString htifYieldManual ++ ", got " ++ toString cmd ++ ")")
  else
    .pure ()

/-- `check_yield_reason_accepted`. -/
def checkYieldReasonAccepted (value : UInt64) : Handler Unit :=
  let data := (htifDataField value <<< 16) >>> 48
  if data ≠ htifYieldReasonRxAccepted then
    throwFinishError .invalidArgument ("invalid data field in htif.tohost (expected " ++
      toString htifYieldReasonRxAccepted ++ ", got " ++ toString data ++ ")")
  else
    .pure ()

/-! ### Protobuf -/

/-- `static_cast<int>` of a 64-bit unsigned value: its low 32 bits, signed. -/
def castInt (value : UInt64) : Int := (value.toNat : Int).bmod (2 ^ 32)

/-- `get_proto_hash`. -/
def getProtoHash (bytes : Bytes) : Except String HashType :=
  if h : bytes.length = 32 then .ok ⟨bytes, h⟩ else .error "invalid hash size"

/-- Decode the sibling hashes one by one, from position `i` on. -/
def setProtoSiblings (log2RootSize : Int) : Nat → List Bytes → ProofType → Except String ProofType
  | _, [], p => .ok p
  | i, bytes :: rest, p => do
    let hash ← getProtoHash bytes
    let p ← p.setSiblingHash hash (log2RootSize - 1 - i)
    setProtoSiblings log2RootSize (i + 1) rest p

/-- `get_proto_merkle_tree_proof`. -/
def getProtoMerkleTreeProof (m : MerkleTreeProofMessage) : Except String ProofType := do
  let log2TargetSize := castInt m.log2TargetSize
  let log2RootSize := castInt m.log2RootSize
  let p : ProofType ← MerkleTreeProof.new log2RootSize log2TargetSize
  let targetHash ← getProtoHash m.targetHash
  let rootHash ← getProtoHash m.rootHash
  let p := { p with
    targetAddress := m.targetAddress
    targetHash := targetHash
    rootHash := rootHash }
  if log2RootSize - m.siblingHashes.length ≠ log2TargetSize then
    .error "wrong number of sibling hashes"
  setProtoSiblings log2RootSize 0 m.siblingHashes p

/-- `set_proto_merkle_tree_proof` on an empty message: the sibling next to the
    root is written first. -/
def setProtoMerkleTreeProof (p : ProofType) : MerkleTreeProofMessage :=
  { targetAddress := p.targetAddress
    log2TargetSize := UInt64.ofNat p.log2TargetSize
    targetHash := p.targetHash.1
    log2RootSize := UInt64.ofNat p.log2RootSize
    rootHash := p.rootHash.1
    siblingHashes := (List.range (p.log2RootSize - p.log2TargetSize)).map fun i =>
      (p.siblingAt (p.log2RootSize - 1 - i)).1 }

end ServerManager
