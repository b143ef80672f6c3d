import ServerManager.Core.Context
import ServerManager.Core.Dispatch
import ServerManager.Core.Encoding
import ServerManager.Core.Epoch
import ServerManager.Core.Handlers
import ServerManager.Core.Keccak
import ServerManager.Core.Machine
import ServerManager.Core.Process
import ServerManager.Core.Sample
import ServerManager.Core.StartSession
import ServerManager.Core.Types
import ServerManager.Coroutine.Family
import ServerManager.Coroutine.History
import ServerManager.Coroutine.Program
import ServerManager.Coroutine.Protocol
import ServerManager.Coroutine.Solo
import ServerManager.Coroutine.Trace
import ServerManager.Coroutine.Views
import ServerManager.Coroutine.World
import ServerManager.Machine.Stepper
import ServerManager.Merkle.Agreement
import ServerManager.Merkle.Back
import ServerManager.Merkle.Bulk
import ServerManager.Merkle.Climb
import ServerManager.Merkle.Complete
import ServerManager.Merkle.Full
import ServerManager.Merkle.Paths
import ServerManager.Merkle.Proof
import ServerManager.Merkle.Refinement
import ServerManager.Merkle.Slices
import ServerManager.Merkle.Updates
import ServerManager.Theory.Accesses
import ServerManager.Theory.Arrivals
import ServerManager.Theory.Baton
import ServerManager.Theory.Bookkeeping
import ServerManager.Theory.Borrow
import ServerManager.Theory.Budget
import ServerManager.Theory.Callbacks
import ServerManager.Theory.Calls
import ServerManager.Theory.Conduct
import ServerManager.Theory.Containment
import ServerManager.Theory.Contracts
import ServerManager.Theory.Counters
import ServerManager.Theory.Custody
import ServerManager.Theory.Deadlines
import ServerManager.Theory.Dealings
import ServerManager.Theory.Discipline
import ServerManager.Theory.Disposal
import ServerManager.Theory.Draining
import ServerManager.Theory.Epochs
import ServerManager.Theory.Erasure
import ServerManager.Theory.Exclusion
import ServerManager.Theory.Frozen
import ServerManager.Theory.Gathering
import ServerManager.Theory.HandOver
import ServerManager.Theory.Increments
import ServerManager.Theory.Inputs
import ServerManager.Theory.Integrity
import ServerManager.Theory.Iterations
import ServerManager.Theory.Ledger
import ServerManager.Theory.Lifecycle
import ServerManager.Theory.Lock
import ServerManager.Theory.MachineProofs
import ServerManager.Theory.Messages
import ServerManager.Theory.Moves
import ServerManager.Theory.OneByOne
import ServerManager.Theory.Order
import ServerManager.Theory.Overread
import ServerManager.Theory.Passage
import ServerManager.Theory.Phases
import ServerManager.Theory.Picks
import ServerManager.Theory.Posts
import ServerManager.Theory.Processor
import ServerManager.Theory.Queries
import ServerManager.Theory.Queue
import ServerManager.Theory.Quiet
import ServerManager.Theory.Ranges
import ServerManager.Theory.Records
import ServerManager.Theory.Refusals
import ServerManager.Theory.Reports
import ServerManager.Theory.Requests
import ServerManager.Theory.Response
import ServerManager.Theory.Resumes
import ServerManager.Theory.Rounds
import ServerManager.Theory.RunLoops
import ServerManager.Theory.Scopes
import ServerManager.Theory.Sections
import ServerManager.Theory.Sequences
import ServerManager.Theory.Stops
import ServerManager.Theory.Taint
import ServerManager.Theory.TimeLimit
import ServerManager.Theory.Transactions
import ServerManager.Theory.Turns
import ServerManager.Theory.Validity
import ServerManager.Theory.Waits
import ServerManager.Theory.Wakeups
import ServerManager.Theory.Words
