import Mathlib
import ServerManager.Merkle.Complete

/-!
# Sessions, Epochs and Inputs

The data model of the manager: what a session holds, what an epoch holds, and
the inputs, queries, vouchers, notices and reports that pass through them,
together with the fields of the protobuf messages the handlers read.

A `uint64_t` is a `UInt64`, with the wrap-around of the source. Byte strings
and vectors are lists of bytes, a fixed-size array is a list with its length,
and `std::map` and `std::unordered_map` are association lists without duplicate
keys. A connection to the machine server is only ever tested for being there,
so `serverStub` is a flag. Fields that no modelled function reads are left out.

## Main definitions

* `Bytes`, `HashType`, `EvmAddressType`: Byte strings and fixed-size arrays.
* `Keccak`: The hash function the manager is linked with.
* `Status`: A gRPC status, with its code and message.
* `InputType`, `QueryType`, `ProcessedInputType`: Inputs and queries.
* `EpochType`, `SessionType`: The state of a session.
-/

namespace ServerManager

/-- A byte string. -/
abbrev Bytes := List UInt8

/-- `hash_type`: 32 bytes. -/
abbrev HashType := { b : Bytes // b.length = 32 }

/-- The hash with all bytes zero, which is also the value-initialised hash. -/
def zeroHash : HashType := ⟨List.replicate 32 0, List.length_replicate⟩

instance : Inhabited HashType := ⟨zeroHash⟩

/-- `evm_address_type`: 20 bytes. -/
abbrev EvmAddressType := { b : Bytes // b.length = 20 }

/-- The Keccak-256 function, which comes from a library. -/
class Keccak where
  hash : Bytes → HashType

/-- `hasher_type`. -/
def hasherType [Keccak] : Hasher HashType where
  concat left right := Keccak.hash (left.1 ++ right.1)
  zeroWord n := Keccak.hash (List.replicate (2 ^ n) 0)

/-- `proof_type`. -/
abbrev ProofType := MerkleTreeProof HashType

/-- gRPC status codes. -/
inductive StatusCode
  | ok | cancelled | unknown | invalidArgument | deadlineExceeded | notFound | alreadyExists
  | permissionDenied | resourceExhausted | failedPrecondition | aborted | outOfRange
  | unimplemented | internal | unavailable | dataLoss | unauthenticated
  deriving DecidableEq, Inhabited

/-- `grpc::Status`. A default one is OK. -/
structure Status where
  code : StatusCode
  message : String
  deriving DecidableEq, Inhabited

/-- The code of a status is OK. -/
def Status.isOk (s : Status) : Bool := s.code = .ok

/-- `MemoryRangeConfig` message. -/
structure MemoryRangeConfig where
  start : UInt64
  length : UInt64
  imageFilename : String
  shared : Bool
  deriving DecidableEq, Inhabited

/-- `memory_range_description_type`. -/
structure MemoryRangeDescriptionType where
  start : UInt64
  length : UInt64
  log2Size : UInt64
  config : MemoryRangeConfig
  deriving DecidableEq, Inhabited

/-- `memory_ranges_type`. -/
structure MemoryRangesType where
  rxBuffer : MemoryRangeDescriptionType
  txBuffer : MemoryRangeDescriptionType
  inputMetadata : MemoryRangeDescriptionType
  voucherHashes : MemoryRangeDescriptionType
  noticeHashes : MemoryRangeDescriptionType
  deriving DecidableEq, Inhabited

/-- `input_metadata_type`. -/
structure InputMetadataType where
  msgSender : EvmAddressType
  blockNumber : UInt64
  timestamp : UInt64
  epochIndex : UInt64
  inputIndex : UInt64
  deriving DecidableEq

/-- `input_type`: an input waiting to be processed. -/
structure InputType where
  metadata : InputMetadataType
  payload : Bytes
  deriving DecidableEq

/-- `keccak_type`: the hash of an output and its proof in the hashes range. -/
structure KeccakType where
  keccak : HashType
  keccakInHashes : ProofType

/-- `voucher_type`. -/
structure VoucherType where
  destination : EvmAddressType
  payload : Bytes
  hash : Option KeccakType

/-- `notice_type`. -/
structure NoticeType where
  payload : Bytes
  hash : Option KeccakType

/-- `report_type`. -/
structure ReportType where
  payload : Bytes
  deriving DecidableEq

/-- `completion_status`. -/
inductive CompletionStatus
  | accepted | rejected | exception | machineHalted | cycleLimitExceeded | timeLimitExceeded
  | payloadLengthLimitExceeded
  deriving DecidableEq, Inhabited

/-- `accepted_data_type`. -/
structure AcceptedDataType where
  voucherHashesInMachine : ProofType
  vouchers : List VoucherType
  noticeHashesInMachine : ProofType
  notices : List NoticeType

/-- The variant of `processed_input_type`: accepted data, or exception data. -/
inductive ProcessedType
  | accepted (data : AcceptedDataType)
  | exception (data : Bytes)

/-- `processed_input_type`. -/
structure ProcessedInputType where
  inputIndex : UInt64
  epochInputIndex : UInt64
  mostRecentMachineHash : HashType
  voucherHashesInEpoch : ProofType
  noticeHashesInEpoch : ProofType
  status : CompletionStatus
  processed : ProcessedType
  reports : List ReportType

/-- `handler_type::pull_type *`: which coroutine, the null pointer being
    `none` wherever it can occur. -/
abbrev HandlerId := Nat

/-- `query_type`. -/
structure QueryType where
  payload : Bytes
  status : CompletionStatus
  coroutine : Option HandlerId
  processedInputCount : UInt64
  exceptionData : Option Bytes
  reports : List ReportType

/-- The query as its constructor makes it from a payload. -/
def QueryType.new (payload : Bytes) : QueryType :=
  { payload := payload
    status := .accepted
    coroutine := none
    processedInputCount := 0
    exceptionData := none
    reports := [] }

/-- `epoch_state`. -/
inductive EpochState
  | active | finished
  deriving DecidableEq, Inhabited

def log2RootSize : Nat := 37
def log2KeccakSize : Nat := 5
def keccakSize : Nat := 2 ^ log2KeccakSize

/-- `epoch_type`. -/
structure EpochType where
  epochIndex : UInt64
  state : EpochState
  mostRecentMachineHash : HashType
  vouchersTree : CompleteMerkleTree HashType
  noticesTree : CompleteMerkleTree HashType
  processedInputs : List ProcessedInputType
  pendingInputs : List InputType
  pendingQuery : Option QueryType

/-- A default-constructed epoch. -/
def EpochType.new [Keccak] : EpochType :=
  { epochIndex := 0
    state := .active
    mostRecentMachineHash := zeroHash
    vouchersTree := .empty hasherType log2RootSize log2KeccakSize log2KeccakSize
    noticesTree := .empty hasherType log2RootSize log2KeccakSize log2KeccakSize
    processedInputs := []
    pendingInputs := []
    pendingQuery := none }

/-- `deadline_config_type`, in milliseconds. -/
structure DeadlineConfigType where
  checkin : UInt64
  advanceState : UInt64
  advanceStateIncrement : UInt64
  inspectState : UInt64
  inspectStateIncrement : UInt64
  machine : UInt64
  store : UInt64
  fast : UInt64
  deriving DecidableEq, Inhabited

/-- `cycles_config_type`. -/
structure CyclesConfigType where
  maxAdvanceState : UInt64
  advanceStateIncrement : UInt64
  maxInspectState : UInt64
  inspectStateIncrement : UInt64
  deriving DecidableEq, Inhabited

/-- The epochs of a session by index. -/
abbrev Epochs := AList fun _ : UInt64 => EpochType

/-- `session_type`. -/
structure SessionType where
  id : String
  sessionLock : Bool
  sessionLockReason : String
  processingLock : Bool
  tainted : Bool
  taintStatus : Status
  serverStub : Bool
  currentMcycle : UInt64
  activeEpochIndex : UInt64
  processedInputCount : UInt64
  memoryRange : MemoryRangesType
  epochs : Epochs
  serverDeadline : DeadlineConfigType
  serverCycles : CyclesConfigType
  serverAddress : String

end ServerManager
