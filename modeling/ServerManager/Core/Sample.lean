import ServerManager.Core.Dispatch
import ServerManager.Core.Keccak

/-!
# A Sample Session

A session as StartSession leaves it, for a machine with small memory ranges, and
the events of its handlers. The runs that show what can go wrong are played on
it, with Keccak-256 as the hash function.

The receive buffer is one page, and the payload of each input is one byte too
long for it. Such an input is skipped right after the snapshot, which is the
shortest way through `process_pending_inputs`.

## Main definitions

* `sampleSession`, `sampleContext`: The session and the context it is in.
* `emptyContext`, `sampleStart`, `startEvents`: The same session from its start.
* `sampleRequest`: The request of an input.
* `Event.request`, `Event.answered`, `Event.failed`: The events of a run.
-/

namespace ServerManager

open Coroutine

attribute [local instance] keccak256

/-- A memory range of one page. -/
def sampleRange (start : UInt64) : MemoryRangeDescriptionType :=
  { start := start
    length := 4096
    log2Size := 12
    config := { start := start, length := 4096, imageFilename := "", shared := false } }

def sampleEpoch : EpochType := EpochType.new

def sampleSession : SessionType :=
  { id := "session"
    sessionLock := false
    sessionLockReason := "RPC StartSession from client"
    processingLock := false
    tainted := false
    taintStatus := default
    serverStub := true
    currentMcycle := 100
    activeEpochIndex := 0
    processedInputCount := 0
    memoryRange :=
      { rxBuffer := sampleRange 0x60000000
        txBuffer := sampleRange 0x60001000
        inputMetadata := sampleRange 0x60002000
        voucherHashes := sampleRange 0x60003000
        noticeHashes := sampleRange 0x60004000 }
    epochs := AList.singleton 0 sampleEpoch
    serverDeadline :=
      { checkin := 5000, advanceState := 1000, advanceStateIncrement := 100,
        inspectState := 1000, inspectStateIncrement := 100, machine := 1000, store := 1000,
        fast := 1000 }
    serverCycles :=
      { maxAdvanceState := 1000, advanceStateIncrement := 100, maxInspectState := 1000,
        inspectStateIncrement := 100 }
    serverAddress := "localhost:5001" }

def sampleContext : HandlerContext :=
  { id := "session"
    remoteCartesiMachinePath := "remote-cartesi-machine"
    managerAddress := "localhost:5000"
    serverAddress := "localhost:0"
    session := some (0, sampleSession)
    generation := 1
    waitingCheckin := none
    alarms := []
    completionQueue := []
    sent := []
    terminated := []
    ok := true
    now := 0
    newStub := true
    spawnError := none }

theorem freshSession_sample : FreshSession sampleContext sampleSession :=
  { entry := rfl
    waiting := rfl
    queue := rfl
    alarms := rfl
    sent := rfl
    unlocked := rfl
    unprocessed := rfl
    untainted := rfl
    epochs := ⟨sampleEpoch, rfl, rfl, rfl, rfl, rfl, rfl, rfl, rfl⟩ }

/-- The context without a session. -/
def emptyContext : HandlerContext := { sampleContext with session := none, generation := 0 }

theorem blank_empty : Blank emptyContext := ⟨rfl, rfl⟩

/-- The request that starts the sample session. -/
def sampleStart : StartSessionRequest :=
  { machineDirectory := "machine"
    activeEpochIndex := 0
    processedInputCount := 0
    serverDeadline := some sampleSession.serverDeadline
    serverCycles := some sampleSession.serverCycles }

def sampleConfig : MachineConfig :=
  { htif := { consoleGetchar := false, yieldManual := true, yieldAutomatic := true }
    rollup := some
      { rxBuffer := (sampleRange 0x60000000).config
        txBuffer := (sampleRange 0x60001000).config
        inputMetadata := (sampleRange 0x60002000).config
        voucherHashes := (sampleRange 0x60003000).config
        noticeHashes := (sampleRange 0x60004000).config } }

/-- The request of input number `n`. -/
def sampleRequest (n : UInt64) : AdvanceStateRequest :=
  { activeEpochIndex := 0
    currentInputIndex := n
    inputMetadata := some
      { msgSender := some (List.replicate 20 0)
        blockNumber := 0
        timestamp := 0
        epochIndex := 0
        inputIndex := n }
    inputPayload := List.replicate 4033 0 }

/-- A query that is too long, and is answered without the machine. -/
def sampleQuery : Bytes := List.replicate 4033 0

/-- Nothing is wrong with the environment. -/
def calm : Environment := { ok := true, now := 0, newStub := true, spawnError := none }

/-- The call succeeded. The root hash is that of the sample epoch. -/
def goodReply : (op : Op) → op.Reply
  | .call .getRootHash => ⟨default, zeroHash.1⟩
  | _ => default

/-- The replies of a machine that waits for its first input. -/
def startReply : (op : Op) → op.Reply
  | .call .getVersion => ⟨default, (machineVersionMajor, machineVersionMinor)⟩
  | .call .getInitialConfig => ⟨default, sampleConfig⟩
  | .call (.readCsr _) => ⟨default, (100 : UInt64)⟩
  | .call (.run _) => ⟨default,
      { mcycle := 100
        tohost := (htifDeviceYield <<< 56) ||| (htifYieldManual <<< 48) |||
          (htifYieldReasonRxAccepted <<< 32)
        iflagsH := false
        iflagsX := false
        iflagsY := true }⟩
  | op => goodReply op

/-- The server is not reachable. -/
def badReply : (op : Op) → op.Reply
  | .call _ => ⟨⟨.unavailable, "connection refused"⟩, default⟩
  | _ => default

namespace Event

/-- A request comes. -/
def request (rpc : Rpc) : Event := .arrive rpc "client" 8 calm

/-- What handler `h` waits for is done. -/
def answered (h : HandlerId) : Event := .complete h goodReply calm

/-- The call handler `h` waits for has failed. -/
def failed (h : HandlerId) : Event := .complete h badReply calm

/-- The server checks in under a new address. -/
def checkIn : Event := .request (.checkIn "localhost:5002")

/-- The first coroutine comes out of the completion queue. -/
def resumed : Event := .dequeue 0 calm

end Event

/-- StartSession is handler 0, and the check-in it waits for is handler 1. -/
def startEvents : List Event :=
  [.request (.startSession sampleStart), .checkIn, .answered 1] ++
    List.replicate 7 (.complete 0 startReply calm)

end ServerManager
