import ServerManager.Core.Sample
import ServerManager.Machine.Stepper
import ServerManager.Theory.Calls

/-!
# Running in Increments

`run_machine` asks the server to run up to one limit after the other until the
machine stops or the last limit is reached. Against a deterministic machine
this is one run up to the last limit: a chunk that ends without a flag ended at
its limit, and the next one goes on from there as if nothing had happened.

The limits are sums of 64-bit numbers. As long as the last limit has room for
one more increment none of them wraps around, and each of them is one increment
above the one before until the last limit cuts it off. This is what bounds the
number of requests.

## Main definitions

* `Emulator`: A deterministic machine with the flags of a response.
* `Emulator.Serves`: The exchanges in which a machine answered all requests.
* `chunks`: How many increments there are to the last limit.

## Theorems

* `chunks_pos`, `chunks_next`: One request leaves one chunk less.
* `Emulator.next_limit`: The next limit, without wrap-around.
* `increments_trace`: The loop of `run_machine` against a machine.
* `increments_equal_single_run`: The same for `run_machine`.
-/

namespace ServerManager

open Coroutine

/-- A deterministic machine that stops when one of its flags is raised. -/
structure Emulator extends Stepper where
  tohost : State → UInt64
  iflagsH : State → Bool
  iflagsX : State → Bool
  iflagsY : State → Bool
  stopped_eq : ∀ m, stopped m = (iflagsY m || iflagsX m || iflagsH m)

namespace Emulator

variable (emu : Emulator)

/-- What the server says of a machine after a run. -/
def response (m : emu.State) : RunResponse :=
  { mcycle := UInt64.ofNat (emu.count m)
    tohost := emu.tohost m
    iflagsH := emu.iflagsH m
    iflagsX := emu.iflagsX m
    iflagsY := emu.iflagsY m }

/-- All exchanges are runs of the machine, which was in the first state before
    them and is in the second after them, and none of the calls failed. -/
def Serves : emu.State → List (Exchange handlerSignature) → emu.State → Prop
  | m, [], m' => m' = m
  | m, e :: es, m' => ∃ limit status s,
      e = ⟨.call (.run limit),
        (⟨status, emu.response (emu.runTo limit.toNat m)⟩ : CallReply (.run limit)), s⟩ ∧
      status.isOk = true ∧ Serves (emu.runTo limit.toNat m) es m'

/-- One more answered request. -/
theorem serves_concat {m m' : emu.State} {es : List (Exchange handlerSignature)}
    (hserves : emu.Serves m es m') (limit : UInt64) {status : Status} (hok : status.isOk = true)
    (s : HandlerContext) :
    emu.Serves m (es ++ [⟨.call (.run limit),
      (⟨status, emu.response (emu.runTo limit.toNat m')⟩ : CallReply (.run limit)), s⟩])
      (emu.runTo limit.toNat m') := by
  induction es generalizing m with
  | nil =>
      obtain rfl : m' = m := hserves
      exact ⟨limit, status, s, rfl, hok, rfl⟩
  | cons e es ih =>
      rcases hserves with ⟨limit', status', s', he, hok', hrest⟩
      exact ⟨limit', status', s', he, hok', ih hrest⟩

/-- The flags of a response say whether the machine stopped. -/
theorem response_flags (m : emu.State) :
    ((emu.response m).iflagsY || (emu.response m).iflagsX || (emu.response m).iflagsH) =
      emu.stopped m := (emu.stopped_eq m).symm

end Emulator

/-- How many increments it takes to get from a cycle to the last limit. -/
def chunks (currMcycle mcycleIncrement maxMcycle : UInt64) : Nat :=
  (maxMcycle.toNat - currMcycle.toNat + mcycleIncrement.toNat - 1) / mcycleIncrement.toNat

section Limits

variable {currMcycle mcycleIncrement maxMcycle : UInt64}

/-- The smaller of two 64-bit numbers. -/
theorem toNat_min (a b : UInt64) : (min a b).toNat = min a.toNat b.toNat := by
  have hmin : min a b = if a ≤ b then a else b := rfl
  rw [hmin]
  split
  · next hle => exact (Nat.min_eq_left (UInt64.le_iff_toNat_le.mp hle)).symm
  · next hgt =>
      rw [UInt64.le_iff_toNat_le] at hgt
      exact (Nat.min_eq_right (by omega)).symm

/-- The next limit is one increment higher, or the last one. -/
theorem next_limit (hroom : maxMcycle.toNat + mcycleIncrement.toNat < 2 ^ 64)
    (hlt : currMcycle < maxMcycle) :
    (min (currMcycle + mcycleIncrement) maxMcycle).toNat =
      min (currMcycle.toNat + mcycleIncrement.toNat) maxMcycle.toNat := by
  rw [UInt64.lt_iff_toNat_lt] at hlt
  have hsum : (currMcycle + mcycleIncrement).toNat =
      currMcycle.toNat + mcycleIncrement.toNat := by
    rw [UInt64.toNat_add]
    exact Nat.mod_eq_of_lt (by omega)
  rw [toNat_min, hsum]

/-- There is a chunk left below the last limit. -/
theorem chunks_pos (hinc : 0 < mcycleIncrement) (hlt : currMcycle < maxMcycle) :
    0 < chunks currMcycle mcycleIncrement maxMcycle := by
  rw [UInt64.lt_iff_toNat_lt] at hlt hinc
  have hzero : (0 : UInt64).toNat = 0 := rfl
  exact Nat.div_pos (by omega) (by omega)

/-- A limit that is not the last one leaves one chunk less. -/
theorem chunks_next (hinc : 0 < mcycleIncrement) {limit : UInt64}
    (hlimit : limit.toNat = currMcycle.toNat + mcycleIncrement.toNat) (hlt : limit < maxMcycle) :
    chunks currMcycle mcycleIncrement maxMcycle =
      chunks limit mcycleIncrement maxMcycle + 1 := by
  rw [UInt64.lt_iff_toNat_lt] at hlt hinc
  have hzero : (0 : UInt64).toNat = 0 := rfl
  have hsum : maxMcycle.toNat - currMcycle.toNat + mcycleIncrement.toNat - 1 =
      (maxMcycle.toNat - limit.toNat + mcycleIncrement.toNat - 1) + mcycleIncrement.toNat := by
    omega
  rw [chunks, hsum, Nat.add_div_right _ (by omega), chunks]

end Limits

variable {emu : Emulator} {ref : Nat} {mcycleIncrement maxMcycle : UInt64} {startTime : Int}
  {maxDeadline : UInt64}

/-- The requests of `run_machine` and where it is after them, against a machine
    that answers all of them: no limit is above the last one, there are no more
    requests than chunks, and when no request is under way the result is that
    of a single run up to the last limit. -/
structure SingleRun (emu : Emulator) (m m' : emu.State) (maxMcycle : UInt64) (bound : Nat)
    (es : List (Exchange handlerSignature)) (l : Landing handlerSignature (Option RunResponse)) :
    Prop where
  limits : ∀ limit reply s, ⟨.call (.run limit), reply, s⟩ ∈ es → limit ≤ maxMcycle
  count : es.length ≤ bound
  outcome : (∃ limit k, l = .parked (.call (.run limit)) k ∧ limit ≤ maxMcycle ∧
      es.length < bound) ∨
    (l = .done (some (emu.response (emu.runTo maxMcycle.toNat m))) ∧
      m' = emu.runTo maxMcycle.toNat m)

/-- The loop of `run_machine`, from a machine whose counter is below the last
    limit. -/
theorem increments_trace (hinc : 0 < mcycleIncrement)
    (hroom : maxMcycle.toNat + mcycleIncrement.toNat < 2 ^ 64) (n : Nat) {base : UInt64}
    {m m' : emu.State} (hbase : emu.count m = base.toNat) (hlt : base < maxMcycle)
    (hn : chunks base mcycleIncrement maxMcycle ≤ n) {s s' : HandlerContext}
    {es : List (Exchange handlerSignature)} {l : Landing handlerSignature (Option RunResponse)}
    (hconnected : Connected ref s)
    (htrace : (runIncrements ref mcycleIncrement maxMcycle startTime maxDeadline n
      (min (base + mcycleIncrement) maxMcycle)).Trace s es l s')
    (hserves : emu.Serves m es m')
    (hquiet : ∀ e ∈ es, Connected ref e.state ∧
      e.state.now - startTime ≤ castDeadline maxDeadline) :
    SingleRun emu m m' maxMcycle (chunks base mcycleIncrement maxMcycle) es l := by
  induction n generalizing base m s es with
  | zero => exact absurd hn (Nat.not_le_of_lt (chunks_pos hinc hlt))
  | succ n ih =>
      have hpos := chunks_pos hinc hlt
      have hlimit := next_limit hroom hlt
      generalize min (base + mcycleIncrement) maxMcycle = limit at htrace hlimit
      rw [UInt64.lt_iff_toNat_lt] at hlt
      have hle : limit.toNat ≤ maxMcycle.toNat := hlimit ▸ Nat.min_le_right _ _
      have hcount : emu.count m ≤ limit.toNat := by omega
      rw [runIncrements, Prog.bind_eq] at htrace
      rcases trace_callOrTaint htrace with ⟨rfl, -, hparked | ⟨x, -, hgone⟩⟩ |
        ⟨reply, s₂, rest, rfl, hafter⟩
      · -- The request is under way.
        exact ⟨fun _ _ _ hmem => absurd hmem List.not_mem_nil, Nat.zero_le _,
          Or.inl ⟨limit, _, hparked, UInt64.le_iff_toNat_le.mpr hle, hpos⟩⟩
      · exact absurd hconnected hgone
      · rcases hserves with ⟨limit', status, s₃, he, hok, hserves⟩
        cases he
        rw [afterCall_ok hok] at hafter
        dsimp only at hafter
        rw [emu.response_flags] at hafter
        have hbelow := emu.count_runTo_le hcount
        have hmcycle : (emu.response (emu.runTo limit.toNat m)).mcycle.toNat =
            emu.count (emu.runTo limit.toNat m) := by
          rw [Emulator.response, UInt64.toNat_ofNat']
          exact Nat.mod_eq_of_lt (by have := limit.toNat_lt; omega)
        by_cases hend : emu.stopped (emu.runTo limit.toNat m) = true ∨
            maxMcycle ≤ (emu.response (emu.runTo limit.toNat m)).mcycle
        · -- The machine stopped by itself, or it is at the last limit.
          rw [if_pos (by simpa using hend)] at hafter
          rcases Prog.trace_pure hafter with ⟨rfl, rfl, rfl⟩
          obtain rfl : m' = emu.runTo limit.toNat m := hserves
          have hsingle : emu.runTo maxMcycle.toNat m = emu.runTo limit.toNat m := by
            rcases hend with hstopped | hreached
            · exact emu.runTo_stopped hcount hle hstopped
            · rw [UInt64.le_iff_toNat_le, hmcycle] at hreached
              have hsame : maxMcycle.toNat = limit.toNat := by omega
              rw [hsame]
          refine ⟨fun _ _ _ hmem => ?_, hpos, Or.inr ⟨by rw [hsingle], hsingle.symm⟩⟩
          rw [List.mem_singleton] at hmem
          cases hmem
          exact UInt64.le_iff_toNat_le.mpr hle
        · rw [if_neg (by simpa using hend)] at hafter
          have hrunning : emu.stopped (emu.runTo limit.toNat m) = false := by
            rcases hstop : emu.stopped (emu.runTo limit.toNat m) with _ | _
            · rfl
            · exact absurd (Or.inl hstop) hend
          have hat := emu.count_runTo hcount hrunning
          have hmore : limit < maxMcycle := by
            refine UInt64.lt_iff_toNat_lt.mpr (Nat.lt_of_not_le fun hge => hend (Or.inr ?_))
            rw [UInt64.le_iff_toNat_le, hmcycle, hat]
            exact hge
          rcases hquiet _ (List.mem_cons_self ..) with ⟨hconnected', hintime⟩
          have hloop := trace_getContext.mp hafter
          rw [if_neg (Int.not_lt.mpr hintime)] at hloop
          have hleft : chunks base mcycleIncrement maxMcycle =
              chunks limit mcycleIncrement maxMcycle + 1 :=
            chunks_next hinc (by rw [UInt64.lt_iff_toNat_lt] at hmore; omega) hmore
          rcases ih hat hmore (by omega) hconnected' hloop hserves
            (fun e he => hquiet e (List.mem_cons_of_mem _ he)) with ⟨hlimits, hlength, houtcome⟩
          rw [emu.runTo_running hcount hle hrunning] at houtcome
          refine ⟨fun limit'' reply'' s'' hmem => ?_, ?_, ?_⟩
          · rcases List.mem_cons.mp hmem with hfirst | hlater
            · cases hfirst
              exact UInt64.le_iff_toNat_le.mpr hle
            · exact hlimits _ _ _ hlater
          · rw [List.length_cons]
            omega
          · rw [List.length_cons]
            rcases houtcome with ⟨limit'', k, hl, hle'', hlength'⟩ | hdone
            · exact Or.inl ⟨limit'', k, hl, hle'', by omega⟩
            · exact Or.inr hdone

/-- A trace of `run_machine` in which the machine answers and no deadline
    expires can be continued until `run_machine` returns. -/
theorem increments_complete {fuel : Nat} {currMcycle : UInt64} {m : emu.State} {bound : Nat}
    {s₀ : HandlerContext} (hconnected : Connected ref s₀)
    (hintime : s₀.now - startTime ≤ castDeadline maxDeadline)
    (hsingle : ∀ es l s' m',
      (runMachine fuel ref currMcycle mcycleIncrement maxMcycle startTime maxDeadline).Trace s₀ es l
        s' → emu.Serves m es m' →
      (∀ e ∈ es, Connected ref e.state ∧ e.state.now - startTime ≤ castDeadline maxDeadline) →
      SingleRun emu m m' maxMcycle bound es l)
    (left : Nat) {es : List (Exchange handlerSignature)}
    {l : Landing handlerSignature (Option RunResponse)} {s' : HandlerContext} {m' : emu.State}
    (hleft : bound - es.length ≤ left)
    (htrace : (runMachine fuel ref currMcycle mcycleIncrement maxMcycle startTime
      maxDeadline).Trace s₀ es l s')
    (hserves : emu.Serves m es m')
    (hquiet : ∀ e ∈ es, Connected ref e.state ∧
      e.state.now - startTime ≤ castDeadline maxDeadline) :
    ∃ es' s'', es'.length ≤ bound ∧
      (runMachine fuel ref currMcycle mcycleIncrement maxMcycle startTime maxDeadline).Trace s₀ es'
        (.done (some (emu.response (emu.runTo maxMcycle.toNat m)))) s'' ∧
      emu.Serves m es' (emu.runTo maxMcycle.toNat m) := by
  induction left generalizing es l s' m' with
  | zero =>
      rcases hsingle es l s' m' htrace hserves hquiet with ⟨-, hcount, houtcome⟩
      rcases houtcome with ⟨limit, k, -, -, hmore⟩ | ⟨hl, hm⟩
      · omega
      · exact ⟨es, s', hcount, hl ▸ htrace, hm ▸ hserves⟩
  | succ left ih =>
      rcases hsingle es l s' m' htrace hserves hquiet with ⟨-, hcount, houtcome⟩
      rcases houtcome with ⟨limit, k, hl, -, hmore⟩ | ⟨hl, hm⟩
      · -- Answer the request that is under way.
        rw [hl] at htrace
        let reply : CallReply (.run limit) :=
          ⟨⟨.ok, ""⟩, emu.response (emu.runTo limit.toNat m')⟩
        have hnext := Prog.trace_extend htrace (Prog.trace_start (k reply) s₀)
        refine ih (by rw [List.length_append, List.length_singleton]; omega) hnext
          (emu.serves_concat hserves limit rfl s₀) (fun e he => ?_)
        rcases List.mem_append.mp he with hbefore | hlast
        · exact hquiet e hbefore
        · rw [List.mem_singleton] at hlast
          subst hlast
          exact ⟨hconnected, hintime⟩
      · exact ⟨es, s', hcount, hl ▸ htrace, hm ▸ hserves⟩

/-- Running in increments is running in one go. `run_machine`, from a machine
    whose counter is at `currMcycle` below `maxMcycle`, asks for no limit above
    `maxMcycle` and makes at most as many requests as there are increments in
    between, rounded up. After that it has returned the response of a single run
    up to `maxMcycle`, and the machine is where that run leaves it. It gets
    there if no call fails and the deadline does not expire. -/
theorem increments_equal_single_run (emu : Emulator) (ref fuel : Nat)
    (currMcycle mcycleIncrement maxMcycle : UInt64) (startTime : Int) (maxDeadline : UInt64)
    (m : emu.State) (hcurr : emu.count m = currMcycle.toNat) (hlt : currMcycle < maxMcycle)
    (hinc : 0 < mcycleIncrement) (hroom : maxMcycle.toNat + mcycleIncrement.toNat < 2 ^ 64)
    (hfuel : chunks currMcycle mcycleIncrement maxMcycle ≤ fuel) (s : HandlerContext)
    (hconnected : Connected ref s) :
    (∀ es l s' m',
      (runMachine fuel ref currMcycle mcycleIncrement maxMcycle startTime maxDeadline).Trace s es l
        s' → emu.Serves m es m' →
      (∀ e ∈ es, Connected ref e.state ∧ e.state.now - startTime ≤ castDeadline maxDeadline) →
      SingleRun emu m m' maxMcycle (chunks currMcycle mcycleIncrement maxMcycle) es l) ∧
    (s.now - startTime ≤ castDeadline maxDeadline →
      ∃ es s', es.length ≤ chunks currMcycle mcycleIncrement maxMcycle ∧
        (runMachine fuel ref currMcycle mcycleIncrement maxMcycle startTime maxDeadline).Trace s es
          (.done (some (emu.response (emu.runTo maxMcycle.toNat m)))) s' ∧
        emu.Serves m es (emu.runTo maxMcycle.toNat m)) := by
  have hsingle : ∀ es l s' m',
      (runMachine fuel ref currMcycle mcycleIncrement maxMcycle startTime maxDeadline).Trace s es l
        s' → emu.Serves m es m' →
      (∀ e ∈ es, Connected ref e.state ∧ e.state.now - startTime ≤ castDeadline maxDeadline) →
      SingleRun emu m m' maxMcycle (chunks currMcycle mcycleIncrement maxMcycle) es l :=
    fun es l s' m' htrace hserves hquiet =>
      increments_trace hinc hroom fuel hcurr hlt hfuel hconnected htrace hserves hquiet
  refine ⟨hsingle, fun hintime => ?_⟩
  have hstart := Prog.trace_start (S := handlerSignature)
    (runMachine fuel ref currMcycle mcycleIncrement maxMcycle startTime maxDeadline) s
  have hnone : emu.Serves m [] m := rfl
  exact increments_complete hconnected hintime hsingle
    (chunks currMcycle mcycleIncrement maxMcycle) (Nat.sub_le _ _) hstart hnone
    (fun e he => absurd he List.not_mem_nil)

/-- A machine that yields after every tenth step. -/
def sampleEmulator : Emulator where
  State := Nat × Bool
  count m := m.1
  stopped m := m.2
  step m := (m.1 + 1, (m.1 + 1) % 10 = 0)
  enter m := (m.1, false)
  count_step _ := rfl
  count_enter _ := rfl
  enter_running := by
    rintro ⟨n, b⟩ hb
    cases hb
    rfl
  tohost _ := 0
  iflagsH _ := false
  iflagsX m := m.2
  iflagsY _ := false
  stopped_eq := by simp

theorem increments_equal_single_run_sample :
    ∃ es s', es.length ≤ 7 ∧
      (runMachine 7 0 0 4 25 0 1000).Trace sampleContext es
        (.done (some ⟨10, 0, false, true, false⟩)) s' ∧
      sampleEmulator.Serves (0, false) es (10, true) :=
  (increments_equal_single_run sampleEmulator 0 7 0 4 25 0 1000 (0, false) rfl (by decide)
    (by decide) (by decide) (by decide) sampleContext ⟨sampleSession, rfl, rfl⟩).2 (by decide)

end ServerManager
