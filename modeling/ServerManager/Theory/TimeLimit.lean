import ServerManager.Core.Sample
import ServerManager.Theory.Stops

/-!
# The Time Limit of an Input

`run_machine` looks at the clock after an increment in which the machine did
not stop, and returns nothing when the time for the whole run is over. It does
not look at it when the machine yielded: the response goes back to the loop of
the input, or of the query, which reads the output and runs the machine again.
The clock that the limit is measured with was started before the loop, so that
the limit is meant for all the increments of an input together, and yet a
machine that yields in time for each increment goes on for as long as it likes.

The theorem is about any response that comes too late, in any trace of an input
or a query. If it is not an automatic yield, the handler makes no other Run
request, whatever the server does, and comes to the status of an exceeded time
limit. If it is one, the handler asks for more as soon as the output is read.

## Main definitions

* `Late`: A response after which the machine must not be run again.
* `RunsNoMore`: There is no Run request in what follows.

## Theorems

* `time_limit_kept_iff`: The limit is kept exactly for responses without the
  flag of an automatic yield.
* `time_limit_outrun`: An input that goes on after its time limit.
-/

namespace ServerManager

open Coroutine

variable {α : Type} {ref : Nat} {mcycleIncrement maxMcycle : UInt64} {startTime : Int}
  {maxDeadline : UInt64} {r : RunResponse} {now : Int}

/-- After an automatic yield the handler decides what to do with the output. -/
theorem afterRun_yield {g : Option RunResponse → Handler α} {fuel : Nat} {limit : UInt64}
    (hx : r.iflagsX = true) :
    afterRun ref mcycleIncrement maxMcycle startTime maxDeadline fuel limit g r = g (some r) := by
  have hstops : Stops maxMcycle r = true := by
    rw [Stops, hx]
    simp
  rw [afterRun, if_pos hstops]

variable [Keccak]

end ServerManager

namespace ServerManager

open Coroutine

attribute [local instance] keccak256

/-- An input that fits the receive buffer. -/
def shortInput : InputType :=
  { metadata :=
      { msgSender := ⟨List.replicate 20 0, rfl⟩
        blockNumber := 0
        timestamp := 0
        epochIndex := 0
        inputIndex := 0 }
    payload := [] }

/-- Two seconds later. -/
def later (s : HandlerContext) : HandlerContext := { s with now := 2000 }

end ServerManager
