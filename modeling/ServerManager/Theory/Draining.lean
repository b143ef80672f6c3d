import ServerManager.Theory.Gathering

/-!
# Draining the Queue

`process_pending_inputs` and `process_pending_query`, followed through with the
books of the session. Running the machine writes nothing down; recording an input
keeps the books; and between two inputs, where a query is let in, they are in
order. A failure either taints the session, and then the books do not matter any
more, or it is the loss of the stub, and then nothing was written since the books
were in order last.

## Theorems

* `turns_executeInput`: Running the machine on an input writes nothing down.
* `turns_processInput`, `turns_pendingInputsLoop`: One iteration, and the loop.
* `turns_processPendingInputs`, `turns_processPendingQuery`: The two functions.
-/

namespace ServerManager

open Coroutine

variable [Keccak]

section Draining

variable {server : Server} {ref : Nat} {v : Own} {m : server.State} {x : SessionType}
  {α β : Type}
variable {E : Exn → server.State → SessionType → Prop}

/-! ### Running the machine -/

omit [Keccak] in
/-- A quiet program leaves the session alone, and fails only with a taint. -/
theorem turns_quietly {R : α → server.State → SessionType → Prop} {c : Handler α}
    (hc : Quiet ref c) (hR : ∀ a m', R a m' x) (hE : ∀ e m', Fails ref e → E e m' x) :
    Turns server ref v R E c m x := by
  refine turns_mono (turns_quiet (I := fun _ => True) hc (fun _ _ _ _ _ _ _ => trivial) trivial)
    ?_ ?_
  · rintro a m' x' ⟨-, rfl⟩
    exact hR a m'
  · rintro e m' x' ⟨he, -, rfl⟩
    exact hE e m' he

omit [Keccak] in
/-- The machine runs on an input that fits. -/
theorem turns_runFittingInput {fuel : Nat} {index : UInt64} {k : Nat} {input : InputType}
    {run : InputRun} : Turns server ref v (fun _ _ x' => x' = x) (fun e _ x' => Fails ref e ∧ x' = x)
      (runFittingInput fuel ref index k input run) m x := by
  have hfails : ∀ e (m' : server.State), Fails ref e → Fails ref e ∧ x = x := fun _ _ he => ⟨he, rfl⟩
  refine turns_bind (turns_quietly quiet_clearMemoryRanges (fun _ m₁ => ?_) hfails)
  refine turns_bind (turns_getSession fun a₁ => ?_)
  refine turns_bind (turns_quietly (quiet_writeEvmAbiString _ _) (fun _ m₂ => ?_) hfails)
  refine turns_bind (turns_getSession fun a₂ => ?_)
  refine turns_bind (turns_quietly (quiet_writeMemoryRange _ _) (fun _ m₃ => ?_) hfails)
  refine turns_bind (turns_quietly quiet_resetIflagsY (fun _ m₄ => ?_) hfails)
  refine turns_bind (turns_quietly (quiet_checkHtifYieldAckData _) (fun _ m₅ => ?_) hfails)
  refine turns_bind (turns_getSession fun a₃ => turns_bind (turns_getContext fun s _ => ?_))
  refine turns_bind (turns_quietly (quiet_runInput _ _ _ _ _ _ _) (fun run' m₆ => ?_) hfails)
  -- the sizes of the trees are looked at, and nothing is written
  refine turns_bind (turns_getEpoch fun e _ => ?_)
  refine turns_ite (fun _ => turns_throw ⟨.taint _, rfl⟩) fun _ => ?_
  refine turns_ite (fun _ => turns_throw ⟨.taint _, rfl⟩) fun _ => ?_
  exact turns_pure rfl

omit [Keccak] in
/-- Running the machine on an input writes nothing down. -/
theorem turns_executeInput {fuel : Nat} {index : UInt64} {k : Nat} {input : InputType}
    {R : InputRun → server.State → SessionType → Prop} (hR : ∀ run m', R run m' x)
    (hE : ∀ e m', Fails ref e → E e m' x) :
    Turns server ref v R E (executeInput fuel ref index k input) m x := by
  refine turns_bind (turns_getSession fun address => turns_ite (fun _ => ?_) fun _ => ?_)
  · refine turns_mono turns_runFittingInput ?_ ?_
    · rintro run m' x' rfl
      exact hR run m'
    · rintro e m' x' ⟨he, rfl⟩
      exact hE e m' he
  · exact turns_pure (hR _ m)

/-! ### The loop over the inputs -/

/-- The input is counted and leaves the queue. -/
theorem turns_popInput {sound : Soundness} {index : UInt64} (hx : SessionKept sound x)
    (hindex : x.activeEpochIndex = index) :
    Turns server ref v (fun _ _ x' => SessionKept sound x' ∧ x'.activeEpochIndex = index)
      E (popInput ref index) m x := by
  subst hindex
  refine turns_bind (turns_modifySession (fun _ => rfl) (turns_modifyEpoch fun e he => ?_))
  have he' : x.epochs.lookup x.activeEpochIndex = some e := he
  have hkept : EpochKept (sound x.memoryRange) { e with pendingInputs := e.pendingInputs.tail } :=
    (hx.kept _ e he').congr rfl rfl rfl rfl
  exact ⟨(hx.setActive he' hkept rfl rfl fun hempty => ⟨hempty, rfl⟩).congr rfl rfl rfl, rfl⟩

/-- One input. -/
theorem turns_processInput {fuel : Nat} {self : HandlerId} {index : UInt64} {input : InputType}
    (hwaiting : v.waiting = none) (hx : SessionKept (Gathered server) x)
    (hindex : x.activeEpochIndex = index) :
    Turns server ref v
      (fun _ _ x' => SessionKept (Gathered server) x' ∧ x'.activeEpochIndex = index)
      (fun e _ x' => Aborted (Gathered server) index e x')
      (processInput fuel self ref index input) m x := by
  subst hindex
  refine turns_bind (turns_getSession fun address => turns_bind (turns_getEpoch fun e he => ?_))
  refine turns_bind (turns_trigger hwaiting (turns_snapshot (fun m₁ => and_aborted hx ?_)
    fun _ status => aborted_fails (.taint status)))
  have hstub : SessionKept (Gathered server) { x with serverStub := true } := hx.congr rfl rfl rfl
  refine turns_bind (turns_executeInput (fun run m₂ => ?_) fun e' _ he' => aborted_fails he')
  refine turns_bind (turns_mono (turns_recordInput hwaiting hstub rfl he) ?_ fun _ _ _ he' => he')
  rintro - m₃ x₃ ⟨hx₃, hindex₃⟩
  exact turns_popInput hx₃ hindex₃

omit [Keccak] in
/-- Putting a coroutine in the completion queue does not show. -/
theorem turns_enqueue {coroutine : Option HandlerId} {R : Unit → server.State → SessionType → Prop}
    (hR : R () m x) : Turns server ref v R E (enqueueCompletionQueue coroutine) m x :=
  fun _ hs => ⟨x, hs, hR⟩

theorem turns_handOver {sound : Soundness} {self : HandlerId} {index : UInt64} {q : QueryType}
    (hx : SessionKept sound x) (hindex : x.activeEpochIndex = index) :
    Turns server ref v (fun _ _ x' => SessionKept sound x' ∧ x'.activeEpochIndex = index)
      E (handOver self ref index q) m x := by
  subst hindex
  refine turns_bind (turns_enqueue (turns_modifyEpoch fun e he => ⟨?_, rfl⟩))
  exact hx.setActive he ((hx.kept _ e he).congr rfl rfl rfl rfl) rfl rfl
    fun hempty => ⟨hempty, rfl⟩

/-- The loop, however often it goes around. -/
theorem turns_pendingInputsLoop {fuel : Nat} {self : HandlerId} {index : UInt64} {n : Nat}
    (hwaiting : v.waiting = none) (hx : SessionKept (Gathered server) x)
    (hindex : x.activeEpochIndex = index) :
    Turns server ref v
      (fun _ _ x' => SessionKept (Gathered server) x' ∧ x'.activeEpochIndex = index)
      (fun e _ x' => Aborted (Gathered server) index e x')
      (pendingInputsLoop fuel self ref index n) m x := by
  induction n generalizing m x with
  | zero => exact turns_spin
  | succ n ih =>
      refine turns_bind (turns_getEpoch fun e he => ?_)
      cases e.pendingInputs with
      | nil => exact turns_pure ⟨hx, hindex⟩
      | cons input rest =>
          refine turns_bind (turns_mono (turns_processInput hwaiting hx hindex) ?_
            fun _ _ _ he' => he')
          rintro - m₁ x₁ ⟨hx₁, hindex₁⟩
          refine turns_bind (turns_getEpoch fun e₁ _ => ?_)
          cases e₁.pendingQuery with
          | none => exact ih hx₁ hindex₁
          | some q =>
              -- a query is let in, and the loop goes on after it
              refine turns_bind (turns_mono (turns_handOver hx₁ hindex₁) ?_ fun _ _ _ he' => he')
              rintro - m₂ x₂ ⟨hx₂, hindex₂⟩
              exact Prog.ensures_yield rfl fun _ m₃ _ => ih hx₂ hindex₂

/-- `process_pending_inputs`. -/
theorem turns_processPendingInputs {fuel : Nat} {self : HandlerId} {index : UInt64}
    (hwaiting : v.waiting = none) (hx : SessionKept (Gathered server) x)
    (hindex : x.activeEpochIndex = index) :
    Turns server ref v
      (fun _ _ x' => SessionKept (Gathered server) x' ∧ x'.activeEpochIndex = index)
      (fun e _ x' => Aborted (Gathered server) index e x')
      (processPendingInputs fuel self ref index) m x := by
  refine turns_bind (turns_getSession fun address => ?_)
  refine turns_ite (fun _ => turns_throw ?_) fun hfree => ?_
  · exact hindex ▸ aborted_fails (.taint _)
  · refine turns_autoLock placed_processing (Bool.eq_false_iff.2 hfree) ?_
    have hlocked : SessionKept (Gathered server) (processingLockField.set true x) :=
      hx.congr rfl rfl rfl
    refine turns_mono (turns_pendingInputsLoop hwaiting hlocked hindex) ?_ ?_
    · rintro - m' x' ⟨hx', hindex'⟩
      exact ⟨hx'.congr rfl rfl rfl, hindex'⟩
    · rintro e m' x' ⟨hindex', hlost⟩
      exact ⟨hindex', fun status hstatus => (hlost status hstatus).congr rfl rfl rfl⟩

/-! ### A query -/

omit [Keccak] in
theorem turns_getQuery {index : UInt64} {R : QueryType → server.State → SessionType → Prop}
    (hR : ∀ q, R q m x) : Turns server ref v R E (getQuery ref index) m x := by
  refine turns_bind (turns_getEpoch fun e _ => ?_)
  cases e.pendingQuery with
  | none => exact Prog.ensures_halt
  | some q => exact turns_pure (hR q)

/-- Writing the query keeps the books. -/
theorem turns_modifyQuery {sound : Soundness} {index : UInt64} {f : QueryType → QueryType}
    {R : Unit → server.State → SessionType → Prop} (hx : SessionKept sound x)
    (hindex : x.activeEpochIndex = index)
    (hR : ∀ x', SessionKept sound x' → x'.activeEpochIndex = index → R () m x') :
    Turns server ref v R E (modifyQuery ref index f) m x := by
  subst hindex
  refine turns_bind (turns_getQuery fun q => turns_modifyEpoch fun e he => ?_)
  refine hR _ ?_ rfl
  have hkept : EpochKept (sound x.memoryRange) { e with pendingQuery := some (f q) } :=
    (hx.kept _ e he).congr rfl rfl rfl rfl
  exact (hx.setActive he hkept rfl rfl fun hempty => ⟨hempty, rfl⟩).congr rfl rfl rfl

/-- The machine runs on a query. -/
theorem turns_runQuery {sound : Soundness} {fuel : Nat} {index : UInt64}
    {increment maxMcycle : UInt64} {startTime : Int} {maxDeadline : UInt64} {n : Nat}
    {mcycle : UInt64} (hx : SessionKept sound x) (hindex : x.activeEpochIndex = index) :
    Turns server ref v (fun _ _ x' => SessionKept sound x' ∧ x'.activeEpochIndex = index)
      (fun e _ x' => Aborted sound index e x')
      (runQuery fuel ref index increment maxMcycle startTime maxDeadline n mcycle) m x := by
  induction n generalizing m x mcycle with
  | zero => exact turns_spin
  | succ n ih =>
      have hfails : ∀ {y : SessionType} e (m' : server.State), y.activeEpochIndex = index →
          Fails ref e → Aborted sound index e y := by
        rintro y e m' rfl he
        exact aborted_fails he
      have hset : ∀ m' status, Turns server ref v
          (fun _ _ x' => SessionKept sound x' ∧ x'.activeEpochIndex = index)
          (fun e _ x' => Aborted sound index e x')
          (modifyQuery ref index fun q => { q with status := status }) m' x :=
        fun m' status => turns_modifyQuery hx hindex fun _ h₁ h₂ => ⟨h₁, h₂⟩
      refine turns_bind (turns_quietly (quiet_runMachine _ _ _ _ _ _) (fun r m₁ => ?_)
        fun e m' => hfails e m' hindex)
      cases r with
      | none => exact hset _ _
      | some r =>
          -- one case for each way the machine can stop
          refine turns_ite (fun _ => hset _ _) fun _ => ?_
          refine turns_ite (fun _ => hset _ _) fun _ => ?_
          refine turns_ite (fun _ => ?_) fun _ => ?_
          · refine turns_ite (fun _ => hset _ _) fun _ => ?_
            refine turns_ite (fun _ => hset _ _) fun _ => ?_
            refine turns_ite (fun _ => ?_) fun _ =>
              turns_throw (hfails _ m₁ hindex (.taint _))
            refine turns_bind (turns_modifyQuery hx hindex fun x₂ hx₂ hindex₂ => ?_)
            refine turns_bind (turns_quietly quiet_readTxPayload (fun data m₃ => ?_)
              fun e m' => hfails e m' hindex₂)
            exact turns_modifyQuery hx₂ hindex₂ fun _ h₁ h₂ => ⟨h₁, h₂⟩
          refine turns_ite (fun _ => turns_throw (hfails _ m₁ hindex (.taint _))) fun _ => ?_
          refine turns_ite (fun _ => ?_) fun _ => ih hx hindex
          refine turns_bind (turns_quietly quiet_readReport (fun report m₂ => ?_)
            fun e m' => hfails e m' hindex)
          exact turns_bind (turns_modifyQuery hx hindex fun x₃ hx₃ hindex₃ => ih hx₃ hindex₃)

theorem turns_executeQuery {sound : Soundness} {fuel : Nat} {index : UInt64}
    (hx : SessionKept sound x) (hindex : x.activeEpochIndex = index) :
    Turns server ref v (fun _ _ x' => SessionKept sound x' ∧ x'.activeEpochIndex = index)
      (fun e _ x' => Aborted sound index e x') (executeQuery fuel ref index) m x := by
  have hfails : ∀ e (m' : server.State), Fails ref e → Aborted sound index e x :=
    fun e _ he => hindex ▸ aborted_fails he
  refine turns_bind (turns_quietly quiet_clearRxBuffer (fun _ m₁ => ?_) hfails)
  refine turns_bind (turns_getSession fun a₁ => turns_bind (turns_getQuery fun q => ?_))
  refine turns_bind (turns_quietly (quiet_writeEvmAbiString _ _) (fun _ m₂ => ?_) hfails)
  refine turns_bind (turns_quietly quiet_resetIflagsY (fun _ m₃ => ?_) hfails)
  refine turns_bind (turns_quietly (quiet_setHtifYieldAckData _) (fun _ m₄ => ?_) hfails)
  refine turns_bind (turns_getSession fun a₂ => turns_bind (turns_getContext fun s _ => ?_))
  exact turns_bind (turns_modifyQuery hx hindex fun x₁ hx₁ hindex₁ => turns_runQuery hx₁ hindex₁)

/-- `process_pending_query`. -/
theorem turns_processPendingQuery {sound : Soundness} {fuel : Nat} {self : HandlerId}
    {index : UInt64} (hwaiting : v.waiting = none) (hx : SessionKept sound x)
    (hindex : x.activeEpochIndex = index) :
    Turns server ref v (fun _ _ x' => SessionKept sound x' ∧ x'.activeEpochIndex = index)
      (fun e _ x' => Aborted sound index e x') (processPendingQuery fuel self ref index) m x := by
  refine turns_bind (turns_getEpoch fun e he => turns_ite (fun _ => turns_pure ⟨hx, hindex⟩) fun _ => ?_)
  refine turns_bind (turns_getSession fun address => ?_)
  refine turns_bind (turns_modifyQuery hx hindex fun x₁ hx₁ hindex₁ => ?_)
  refine turns_bind (turns_getQuery fun q => turns_ite (fun _ => ?_) fun _ => ?_)
  · exact turns_bind (turns_modifyQuery hx₁ hindex₁ fun x₂ hx₂ hindex₂ => turns_pure ⟨hx₂, hindex₂⟩)
  · subst hindex₁
    refine turns_bind (turns_trigger hwaiting (turns_snapshot (fun m₁ => and_aborted hx₁ ?_)
      fun _ status => aborted_fails (.taint status)))
    have hstub : SessionKept sound { x₁ with serverStub := true } := hx₁.congr rfl rfl rfl
    refine turns_bind (turns_mono (turns_executeQuery hstub rfl) ?_ fun _ _ _ he => he)
    rintro - m₂ x₂ ⟨hx₂, hindex₂⟩
    -- the machine is rolled back whatever became of the query
    rw [← hindex₂]
    exact turns_trigger hwaiting (turns_rollback (fun m₃ => and_aborted hx₂
      ⟨hx₂.congr rfl rfl rfl, rfl⟩) fun _ status => aborted_fails (.taint status))

end Draining

end ServerManager
