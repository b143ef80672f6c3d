import ServerManager.Theory.Scopes

/-!
# AdvanceState Keeps to the Protocol

The longest handler: it accepts an input, waits for the acknowledgement with
the session locked, and then may turn into the one that processes the inputs of
the epoch until the queue is empty.

The loop is proved with an entry condition. Whatever brought the handler to the
head of the loop, the segment so far must be the beginning of a way into the
next transaction if there is an input left, and of a way out of the handler if
there is none. The three ways to the head of the loop are the acknowledgement,
the record of an input, and the end of a query.

## Main definitions

* `NoteChange`: An input is recorded, but not yet removed from the queue.
* `LoopEntry`: The entry condition of the loop.
* `LoopRaised`: What holds when the loop throws.

## Theorems

* `sat_processInput`: One iteration records and removes one input.
* `sat_pendingInputsLoop`: The loop.
* `keeps_advanceState`: The handler.
-/

namespace ServerManager

open Coroutine Transaction

variable [Keccak] {h : HandlerId} {request : AdvanceStateRequest} {index number : UInt64}

/-! ### Recording an input -/

/-- An input is recorded under a number, but not yet removed from the queue. -/
def NoteChange (number : UInt64) (f : EpochType → EpochType) : Prop :=
  ∀ e, ∃ i : ProcessedInputType, i.inputIndex = number ∧
    f e = { e with
      vouchersTree := (f e).vouchersTree
      noticesTree := (f e).noticesTree
      mostRecentMachineHash := (f e).mostRecentMachineHash
      processedInputs := e.processedInputs ++ [i] }

/-- What holds once an input is recorded: the segment changed the trees and
    added the record. -/
def Noted (h : HandlerId) (request : AdvanceStateRequest) (index number : UInt64) (ph : Phase)
    (s₀ s : HandlerContext) : Prop :=
  ∃ stage f mcycle e, ph = (advanceTransaction h request index number).phase stage ∧
    NoteChange number f ∧ (View.of s₀).epochs index = some e ∧ Live s ∧
    View.of s = { (View.of s₀).mapEpoch index f with
      mcycle := mcycle
      waiting := settled stage (View.of s₀).waiting }

/-- What holds once the input is also removed and counted. -/
def Popped (h : HandlerId) (request : AdvanceStateRequest) (index number : UInt64) (ph : Phase)
    (s₀ s : HandlerContext) : Prop :=
  ∃ stage f mcycle e, ph = (advanceTransaction h request index number).phase stage ∧
    RecordChange number f ∧ (View.of s₀).epochs index = some e ∧ Live s ∧
    View.of s = { (View.of s₀).mapEpoch index f with
      count := (View.of s₀).count + 1
      mcycle := mcycle
      waiting := settled stage (View.of s₀).waiting }

theorem Popped.live {ph : Phase} {s₀ s : HandlerContext}
    (hpop : Popped h request index number ph s₀ s) : Live s := by
  rcases hpop with ⟨_, _, _, _, _, _, _, hs, _⟩
  exact hs

theorem Popped.there {ph : Phase} {s₀ s : HandlerContext} {p : Prop}
    (hpop : Popped h request index number ph s₀ s) (hnone : (View.of s).epochs index = none) :
    p := by
  rcases hpop with ⟨_, f, _, e, _, _, he, _, hv⟩
  rw [hv] at hnone
  simp only [View.mapEpoch, Function.update_self, he, Option.map_some] at hnone
  cases hnone

omit [Keccak] in
theorem treeChange_comp {f g : EpochType → EpochType} (hf : TreeChange f) (hg : TreeChange g) :
    TreeChange fun e => g (f e) := by
  intro e
  calc g (f e) = { f e with
          vouchersTree := (g (f e)).vouchersTree, noticesTree := (g (f e)).noticesTree } := hg (f e)
    _ = { e with
          vouchersTree := (g (f e)).vouchersTree, noticesTree := (g (f e)).noticesTree } := by
      rw [hf e]

theorem steady_pushLeaf {kind : OutputKind} (hkind : ∀ tree, TreeChange (kind.setTree tree))
    (epochInputIndex : Nat) (hash : HashType) :
    Prog.Steady sessionProtocol h (.advanceState request)
      (advanceTransaction h request index number).Inside
      (advanceTransaction h request index number).Raised
      (pushLeaf 0 index kind epochInputIndex hash) := by
  intro ph s₀ s hin
  have hlost := hin.lost
  rcases hin with ⟨stage, rfl, hmade, f, hf, ⟨session, hs⟩, hv⟩
  simp only [pushLeaf, Prog.bind_eq, Prog.sat_bind]
  refine sat_getEpoch hs hlost fun e he => ?_
  cases hpush : (kind.tree e).pushBack hasherType hash with
  | error what => exact Or.inl ⟨⟨stage, rfl, hmade, f, hf, ⟨session, hs⟩, hv⟩, .exception what⟩
  | ok tree =>
      refine sat_modifyEpoch hs hlost fun e' s' _ hs' hv' => ?_
      refine steady_of_quiet (quiet_ofExcept _) _ _ _
        ⟨stage, rfl, hmade, _, treeChange_comp hf (hkind tree), ⟨_, hs'⟩, ?_⟩
      rw [hv', hv, ← mapEpoch_mapEpoch _ _ f (kind.setTree tree)]
      rfl

omit [Keccak] in
theorem voucherKind_setTree (tree : CompleteMerkleTree HashType) :
    TreeChange (voucherKind.setTree tree) := fun _ => rfl

omit [Keccak] in
theorem noticeKind_setTree (tree : CompleteMerkleTree HashType) :
    TreeChange (noticeKind.setTree tree) := fun _ => rfl

theorem steady_collectOutputs {kind : OutputKind}
    (hkind : ∀ tree, TreeChange (kind.setTree tree)) (epochInputIndex count : Nat) :
    Prog.Steady sessionProtocol h (.advanceState request)
      (advanceTransaction h request index number).Inside
      (advanceTransaction h request index number).Raised
      (collectOutputs 0 index kind epochInputIndex count) := by
  refine Prog.steady_bind (steady_of_quiet quiet_getSession) fun session =>
    Prog.steady_bind (steady_of_quiet (quiet_getProof _ _)) fun proof =>
    Prog.steady_bind (steady_pushLeaf hkind _ _) fun inEpoch =>
    Prog.steady_bind (steady_of_quiet (quiet_readMemory _ _)) fun hashes => ?_
  refine steady_of_quiet ?_
  dsimp only
  split
  · exact fun _ => Fails.taint _
  · exact quiet_bind (quiet_getKeccaks _ _ _ _) fun _ => quiet_pure _

omit [Keccak] in
theorem noteChange_comp {f g : EpochType → EpochType} (hf : TreeChange f)
    (hg : NoteChange number g) : NoteChange number fun e => g (f e) := by
  intro e
  rcases hg (f e) with ⟨i, hi, hgf⟩
  refine ⟨i, hi, hgf.trans ?_⟩
  dsimp only
  rw [hf e]

omit [Keccak] in
/-- An epoch that a segment left behind was there when the segment began. -/
theorem epoch_of_mapEpoch {v v' : View} {f : EpochType → EpochType} {e : EpochType}
    (hv : v'.epochs = (v.mapEpoch index f).epochs) (he : v'.epochs index = some e) :
    ∃ e₀, v.epochs index = some e₀ ∧ f e₀ = e := by
  rw [hv] at he
  simpa only [View.mapEpoch, Function.update_self, Option.map_eq_some_iff] using he

/-- The record of an input, as the view sees it. -/
theorem noted_of_inside {ph : Phase} {s₀ s s' : HandlerContext} {e : EpochType}
    {g : EpochType → EpochType} (mcycle : UInt64) (hg : NoteChange number g)
    (hin : (advanceTransaction h request index number).Inside ph s₀ s)
    (he : (View.of s).epochs index = some e) (hs' : Live s')
    (hv' : View.of s' = { (View.of s).mapEpoch index g with mcycle := mcycle }) :
    Noted h request index number ph s₀ s' := by
  rcases hin with ⟨stage, rfl, -, f, hf, -, hv⟩
  obtain ⟨e₀, he₀, -⟩ := epoch_of_mapEpoch (v := View.of s₀) (f := f)
    (by rw [hv]) he
  refine ⟨stage, fun e => g (f e), mcycle, e₀, rfl, noteChange_comp hf hg, he₀, hs', ?_⟩
  rw [hv', hv, ← mapEpoch_mapEpoch _ _ f g]
  rfl

theorem sat_recordAccepted (epochInputIndex : Nat) (run : InputRun) {ph : Phase}
    {s₀ s : HandlerContext} (hin : (advanceTransaction h request index number).Inside ph s₀ s) :
    Prog.Sat sessionProtocol h (.advanceState request)
      (fun _ => Noted h request index number)
      (advanceTransaction h request index number).Raised
      (recordAccepted 0 index number epochInputIndex run) ph s₀ s := by
  simp only [recordAccepted, Prog.bind_eq, Prog.sat_bind]
  refine Prog.sat_mono (steady_collectOutputs voucherKind_setTree _ _ _ _ _ hin) ?_
    fun _ _ _ _ he => he
  intro vouchers ph₁ s₁ s₁' hin₁
  refine Prog.sat_mono (steady_collectOutputs noticeKind_setTree _ _ _ _ _ hin₁) ?_
    fun _ _ _ _ he => he
  intro notices ph₂ s₂ s₂' hin₂
  refine Prog.sat_mono (steady_of_quiet quiet_getRootHash _ _ _ hin₂) ?_ fun _ _ _ _ he => he
  intro hash ph₃ s₃ s₃' hin₃
  obtain ⟨session, hs⟩ := hin₃.park.1
  refine sat_modifyEpoch hs hin₃.lost fun e s₄ he hs₄ hv₄ => ?_
  refine sat_modifySession (g := fun v => { v with mcycle := run.currentMcycle }) hs₄
    (fun v => rfl) fun s₅ hs₅ hv₅ => ?_
  refine noted_of_inside run.currentMcycle ?_ hin₃ ((view_epochs hs index).trans he) ⟨_, hs₅⟩
    (hv₅.trans (by rw [hv₄]))
  exact fun e => ⟨_, rfl, rfl⟩

theorem sat_recordSkipped (epochInputIndex : Nat) (run : InputRun) {ph : Phase}
    {s₀ s : HandlerContext} (hin : (advanceTransaction h request index number).Inside ph s₀ s) :
    Prog.Sat sessionProtocol h (.advanceState request)
      (fun _ => Noted h request index number)
      (advanceTransaction h request index number).Raised
      (recordSkipped h 0 index number epochInputIndex run) ph s₀ s := by
  simp only [recordSkipped, Prog.bind_eq, Prog.sat_bind]
  refine Prog.sat_mono (steady_rollback _ _ _ hin) ?_ fun _ _ _ _ he => he
  intro _ ph₁ s₁ s₁' hin₁
  refine Prog.sat_mono (steady_pushLeaf voucherKind_setTree _ _ _ _ _ hin₁) ?_
    fun _ _ _ _ he => he
  intro vouchers ph₂ s₂ s₂' hin₂
  refine Prog.sat_mono (steady_pushLeaf noticeKind_setTree _ _ _ _ _ hin₂) ?_
    fun _ _ _ _ he => he
  intro notices ph₃ s₃ s₃' hin₃
  refine Prog.sat_mono (steady_of_quiet quiet_getRootHash _ _ _ hin₃) ?_ fun _ _ _ _ he => he
  intro hash ph₄ s₄ s₄' hin₄
  obtain ⟨session, hs⟩ := hin₄.park.1
  refine sat_getEpoch hs hin₄.lost fun e he => ?_
  split
  · exact Or.inl ⟨hin₄, .taint _⟩
  · refine sat_modifyEpoch hs hin₄.lost fun e s₅ he hs₅ hv₅ => ?_
    refine noted_of_inside (View.of s₄').mcycle ?_ hin₄
      ((view_epochs hs index).trans he) ⟨_, hs₅⟩ hv₅
    exact fun e => ⟨_, rfl, rfl⟩

theorem sat_popInput {ph : Phase} {s₀ s : HandlerContext}
    (hnoted : Noted h request index number ph s₀ s) :
    Prog.Sat sessionProtocol h (.advanceState request) (fun _ => Popped h request index number)
      (advanceTransaction h request index number).Raised (popInput 0 index) ph s₀ s := by
  rcases hnoted with ⟨stage, f, mcycle, e₀, rfl, hf, he₀, ⟨session, hs⟩, hv⟩
  simp only [popInput, Prog.bind_eq, Prog.sat_bind]
  refine sat_modifySession (g := fun v => { v with count := v.count + 1 }) hs (fun v => rfl)
    fun s₁ hs₁ hv₁ => ?_
  refine sat_modifyEpoch hs₁ (fun hnone => ?_) fun e s₂ _ hs₂ hv₂ => ?_
  · -- the record was just written to it
    rw [hv₁, hv] at hnone
    simp only [View.mapEpoch, Function.update_self, he₀, Option.map_some] at hnone
    cases hnone
  refine ⟨stage, fun e => { f e with pendingInputs := (f e).pendingInputs.tail }, mcycle, e₀, rfl,
    ?_, he₀, ⟨_, hs₂⟩, ?_⟩
  · intro e
    rcases hf e with ⟨i, hi, hfe⟩
    refine ⟨i, hi, ?_⟩
    dsimp only
    rw [hfe]
  · rw [hv₂, hv₁, hv,
      ← mapEpoch_mapEpoch _ _ f fun e => { e with pendingInputs := e.pendingInputs.tail }]
    rfl

/-- One iteration of the loop, from where its snapshot starts the transaction. -/
theorem sat_processInput (fuel : Nat) (input : InputType) {ph : Phase} {s₀ s : HandlerContext}
    (hs : Live s) (hnumber : (View.of s).count = number) {e : EpochType}
    (he : (View.of s).epochs index = some e)
    (hgo : (View.of s).waiting = none → Trans h (.advanceState request) ph (View.of s₀)
      (some (.advancing index number .snapshot)) (View.of s))
    (hcrash : (View.of s).waiting ≠ none →
      Crashes h (.advanceState request) ph (View.of s₀) .alreadyWaitingCheckin) :
    Prog.Sat sessionProtocol h (.advanceState request) (fun _ => Popped h request index number)
      (advanceTransaction h request index number).Raised (processInput fuel h 0 index input)
      ph s₀ s := by
  obtain ⟨session, hsession⟩ := id hs
  have hcount : session.processedInputCount = number := by
    rw [← hnumber, ← view_withSession hsession]
    rfl
  simp only [processInput, Prog.bind_eq, Prog.sat_bind, sat_getSession hsession, hcount]
  refine sat_getEpoch hsession (epoch_there he) fun e _ => ?_
  refine Prog.sat_mono (sat_triggerAndWaitCheckin (T := advanceTransaction h request index number)
    .snapshot (by decide) hs
    (fun hw => sat_callOrTaint (c := .snapshot) (by decide) .advanceSnapshot hs (hgo hw)) hcrash) ?_
    fun _ _ _ _ he => he
  intro _ ph₁ s₁ s₁' hin₁
  refine Prog.sat_mono (steady_executeInput _ _ _ _ _ _ hin₁) ?_
    fun _ _ _ _ he => he
  intro run ph₂ s₂ s₂' hin₂
  refine Prog.sat_mono (Q := fun _ => Noted h request index number) ?_
    (fun _ _ _ _ hn => sat_popInput hn) fun _ _ _ _ he => he
  unfold recordInput
  split
  · exact sat_recordAccepted _ _ hin₂
  · exact sat_recordSkipped _ _ hin₂

/-! ### The loop -/

/-- The entry condition of the loop: without an input left the segment so far
    is the beginning of a way out of the handler, and with one it is the
    beginning of a way into a transaction. The epoch can only be missing if it
    was erased before the segment. -/
def LoopEntry (h : HandlerId) (request : AdvanceStateRequest) (index : UInt64) (ph : Phase)
    (s₀ s : HandlerContext) : Prop :=
  Live s ∧ ((View.of s).epochs index = none →
    Crashes h (.advanceState request) ph (View.of s₀) .useAfterFree) ∧
  ∀ e, (View.of s).epochs index = some e →
    (e.pendingInputs = [] → Trans h (.advanceState request) ph (View.of s₀) none
      { View.of s with processing := false, lock := false }) ∧
    (e.pendingInputs ≠ [] → Starts h (.advanceState request) ph (View.of s₀)
      (.advancing index (View.of s).count .snapshot) (View.of s))

/-- What holds when the loop is done. -/
def LoopDone (h : HandlerId) (request : AdvanceStateRequest) (ph : Phase)
    (s₀ s : HandlerContext) : Prop :=
  Live s ∧ Trans h (.advanceState request) ph (View.of s₀) none
    { View.of s with processing := false, lock := false }

/-- What holds when the loop throws. -/
def LoopRaised (h : HandlerId) (request : AdvanceStateRequest) (index : UInt64) (e : Exn)
    (ph : Phase) (s₀ s : HandlerContext) : Prop :=
  ∃ number, (advanceTransaction h request index number).Raised e ph s₀ s

omit [Keccak] in
theorem recordChange_query {f : EpochType → EpochType} (hf : RecordChange number f)
    (e : EpochType) : (f e).pendingQuery = e.pendingQuery := by
  rcases hf e with ⟨i, -, hfe⟩
  rw [hfe]

/-- After a query the handler is at the head of the loop. -/
theorem loopEntry_handedOff {s : HandlerContext} (hs : Live s) :
    LoopEntry h request index (.handedOff index) s s :=
  ⟨hs, fun hnone => .lost (.epoch rfl hnone),
    fun _ he => ⟨fun hpend => .handedExit he hpend, fun hpend => .handedOff he hpend⟩⟩

/-- After the record of an input, when no query is waiting, so it is too. -/
theorem loopEntry_popped {ph : Phase} {s₀ s : HandlerContext} {e : EpochType}
    (hpop : Popped h request index number ph s₀ s) (he : (View.of s).epochs index = some e)
    (hq : e.pendingQuery = none) : LoopEntry h request index ph s₀ s := by
  rcases hpop with ⟨stage, f, mcycle, e₀, rfl, hf, he₀, hs, hv⟩
  obtain ⟨e₁, he₁, rfl⟩ := epoch_of_mapEpoch (v := View.of s₀) (f := f) (by rw [hv]) he
  rw [recordChange_query hf] at hq
  refine ⟨hs, epoch_there he, fun e' he' => ?_⟩
  rw [he] at he'
  cases he'
  rw [hv]
  exact ⟨fun hpend => .advanceExit he₁ hf hq hpend, fun hpend => .recorded he₁ hf hq hpend⟩

theorem sat_pendingInputsLoop (fuel n : Nat) {ph : Phase} {s₀ s : HandlerContext}
    (hindex : index = request.activeEpochIndex)
    (hentry : LoopEntry h request index ph s₀ s) :
    Prog.Sat sessionProtocol h (.advanceState request) (fun _ => LoopDone h request)
      (LoopRaised h request index) (pendingInputsLoop fuel h 0 index n) ph s₀ s := by
  induction n generalizing ph s₀ s with
  | zero => trivial
  | succ n ih =>
      rcases hentry with ⟨hs, hlost, hnext⟩
      obtain ⟨session, hsession⟩ := id hs
      simp only [pendingInputsLoop, Prog.bind_eq, Prog.sat_bind]
      refine sat_getEpoch hsession hlost fun e he => ?_
      have hve := (view_epochs hsession index).trans he
      cases hpend : e.pendingInputs with
      | nil => exact ⟨hs, (hnext e hve).1 hpend⟩
      | cons input rest =>
          have hstarts := (hnext e hve).2 (by rw [hpend]; exact List.cons_ne_nil _ _)
          simp only [Prog.sat_bind]
          refine Prog.sat_mono (sat_processInput fuel input hs rfl hve (fun hw => .start hstarts hw)
            fun hw => .start hstarts hw) ?_ fun _ _ _ _ hr => ⟨_, hr⟩
          intro _ ph₁ s₁ s₁' hpop
          obtain ⟨session₁, hs₁⟩ := hpop.live
          refine sat_getEpoch hs₁ hpop.there fun e₁ he₁ => ?_
          have hve₁ := (view_epochs hs₁ index).trans he₁
          cases hq : e₁.pendingQuery with
          | none => exact ih (loopEntry_popped hpop hve₁ hq)
          | some q =>
              simp only [Prog.sat_bind]
              -- the machine goes to the query, and the handler comes back to the loop head
              rcases hpop with ⟨stage, f, mcycle, e₀, rfl, hf, he₀, -, hv⟩
              refine sat_handOver hs₁ (epoch_there hve₁) fun s₂ hs₂ hv₂ => ?_
              refine ⟨.handedOff index, .handedOff hindex, ⟨hs₂, ?_⟩, fun _ s₃ hs₃ =>
                ih (loopEntry_handedOff hs₃)⟩
              obtain ⟨e₂, he₂, rfl⟩ := epoch_of_mapEpoch (v := View.of s₁) (f := f)
                (by rw [hv]) hve₁
              rw [recordChange_query hf] at hq
              have hview : View.of s₂ =
                  { (View.of s₁).mapEpoch index (fun e => setCoroutine h (f e)) with
                    count := (View.of s₁).count + 1
                    mcycle := mcycle
                    waiting := settled stage (View.of s₁).waiting
                    queue := (View.of s₁).queue ++ [q.coroutine] } := by
                rw [hv₂, hv, ← mapEpoch_mapEpoch _ _ f (setCoroutine h)]
                rfl
              rw [hview]
              exact .advancePark he₂ hf hq

/-! ### The handler -/

/-- What holds when the try block of AdvanceState throws: the error is answered,
    or the session is tainted. -/
def Caught (h : HandlerId) (request : AdvanceStateRequest) (e : Exn) (ph : Phase)
    (s₀ s : HandlerContext) : Prop :=
  Live s ∧ match e with
    | .finishErrorYieldNone _ => ∀ status, Trans h (.advanceState request) ph (View.of s₀)
        (some .refused) ((View.of s).answer (.advanceState request) (.finishWithError status))
    | .taintSession ref _ => ref = 0 ∧ ∀ t v', Taints h (View.of s) t v' →
        Trans h (.advanceState request) ph (View.of s₀) t v'
    | .stdException _ => ∀ t v', Taints h (View.of s) t v' →
        Trans h (.advanceState request) ph (View.of s₀) t v'

omit [Keccak] in
/-- The conversion of the metadata agrees with the input the request stands
    for, and the number is the one the manager expects. -/
theorem checkInputMetadata_cases (request : AdvanceStateRequest) (current : UInt64) :
    (∃ status, checkInputMetadata request.inputMetadata current =
      .throw (.finishErrorYieldNone status)) ∨
    ∃ metadata, checkInputMetadata request.inputMetadata current = .pure metadata ∧
      metadata.inputIndex = current ∧
      requestInput request = some { metadata := metadata, payload := request.inputPayload } := by
  unfold checkInputMetadata requestInput
  cases hm : request.inputMetadata with
  | none => exact Or.inl ⟨_, rfl⟩
  | some m =>
      dsimp only
      cases hsender : m.msgSender with
      | none => exact Or.inl ⟨_, rfl⟩
      | some sender =>
          dsimp only
          by_cases hlen : sender.length = 20
          · rw [dif_pos hlen]
            by_cases hepoch : m.epochIndex ≠ 0
            · rw [if_pos hepoch]
              exact Or.inl ⟨_, rfl⟩
            · rw [if_neg hepoch]
              by_cases hindex : m.inputIndex ≠ current
              · rw [if_pos hindex]
                exact Or.inl ⟨_, rfl⟩
              · rw [if_neg hindex]
                refine Or.inr ⟨_, rfl, not_not.1 hindex, ?_⟩
                simp only [Option.bind_eq_bind, Option.bind_some, hsender, hlen, dif_pos]
          · rw [dif_neg hlen]
            exact Or.inl ⟨_, rfl⟩

theorem sat_checkAdvanceState {Q : InputType → Phase → HandlerContext → HandlerContext → Prop}
    {E : Exn → Phase → HandlerContext → HandlerContext → Prop} {ph : Phase}
    {s₀ s : HandlerContext} (hs : Live s)
    (hE : ∀ status, E (.finishErrorYieldNone status) ph s₀ s)
    (hQ : ∀ e input, (View.of s).tainted = false →
      request.activeEpochIndex = (View.of s).active →
      (View.of s).epochs (View.of s).active = some e → e.state = .active →
      input.metadata.inputIndex = UInt64.ofNat e.pendingInputs.length + (View.of s).count →
      request.currentInputIndex = input.metadata.inputIndex →
      requestInput request = some input → Q input ph s₀ s) :
    Prog.Sat sessionProtocol h (.advanceState request) Q E (checkAdvanceState 0 request)
      ph s₀ s := by
  obtain ⟨session, hsession⟩ := id hs
  simp only [checkAdvanceState, Prog.bind_eq, Prog.sat_bind]
  refine sat_checkTainted hs (fun _ => hE) fun htaint => ?_
  rw [sat_getSession hsession]
  rw [← view_withSession hsession] at hQ htaint
  by_cases hactive : session.activeEpochIndex ≠ request.activeEpochIndex
  · rw [if_pos hactive]
    exact hE _
  rw [if_neg hactive]
  cases he : session.epochs.lookup session.activeEpochIndex with
  | none => exact hE _
  | some e =>
      dsimp only
      by_cases hstate : e.state ≠ .active
      · rw [if_pos hstate]
        exact hE _
      rw [if_neg hstate]
      by_cases hcurrent : UInt64.ofNat e.pendingInputs.length + session.processedInputCount ≠
          request.currentInputIndex
      · rw [if_pos hcurrent]
        exact hE _
      rw [if_neg hcurrent, Prog.sat_bind]
      rcases checkInputMetadata_cases request
        (UInt64.ofNat e.pendingInputs.length + session.processedInputCount) with
        ⟨status, hthrow⟩ | ⟨metadata, hpure, hnumber, hinput⟩
      · rw [hthrow]
        exact hE _
      · rw [hpure]
        exact hQ e _ htaint (not_not.1 hactive).symm he (not_not.1 hstate) hnumber
          ((not_not.1 hcurrent).symm.trans hnumber.symm) hinput

/-- An exception of the loop, once both locks are released. -/
theorem caught_of_loopRaised {e : Exn} {ph : Phase} {s₀ s s' : HandlerContext}
    (hraised : LoopRaised h request index e ph s₀ s) (hs' : Live s')
    (hv' : View.of s' = { View.of s with processing := false, lock := false }) :
    Caught h request e ph s₀ s' := by
  rcases hraised with ⟨number, ⟨⟨stage, rfl, hmade, f, hf, -, hv⟩, hfails⟩ |
    ⟨stage, status, rfl, hstub, ⟨f, hf, -, hv⟩, rfl⟩⟩
  · refine ⟨hs', ?_⟩
    have hview : View.of s' = { (View.of s₀).mapEpoch index f with
        waiting := settled stage (View.of s₀).waiting, processing := false, lock := false } := by
      rw [hv', hv]
    cases hfails with
    | taint status => exact ⟨rfl, fun t v' ht => .advanceTaint hf (hview ▸ ht) hmade⟩
    | exception what => exact fun t v' ht => .advanceTaint hf (hview ▸ ht) hmade
  · refine ⟨hs', fun status => ?_⟩
    rw [hv', hv]
    exact .advanceFail hf hstub

/-- `process_pending_inputs` right after the acknowledgement of the only input
    in the queue. -/
theorem sat_processPendingInputs (fuel : Nat) {e : EpochType} {s₀ s : HandlerContext}
    (hindex : index = request.activeEpochIndex) (hs : Live s) (hlock : (View.of s₀).lock = true)
    (hv : View.of s = { View.of s₀ with lock := false })
    (he : (View.of s₀).epochs index = some e) (hlen : e.pendingInputs.length = 1) :
    Prog.Sat sessionProtocol h (.advanceState request)
      (Released (setLockView false) fun _ ph s₀ s =>
        sessionProtocol.Step h (.advanceState request) ph s₀ none s)
      (Released (setLockView false) (Caught h request))
      (processPendingInputs fuel h 0 index) (.accepted index) s₀ s := by
  obtain ⟨session, hsession⟩ := id hs
  have hproc : (View.of s).processing = session.processingLock := by
    rw [← view_withSession hsession]
    rfl
  simp only [processPendingInputs, Prog.bind_eq, Prog.sat_bind, sat_getSession hsession]
  cases hp : session.processingLock with
  | true =>
      -- another handler is processing: the session is tainted
      have hp₀ : (View.of s₀).processing = true := by
        rw [← hp, ← hproc, hv]
      refine ⟨hs, fun s' hs' hv' => ⟨hs', rfl, fun t v' ht => ?_⟩⟩
      have hview : View.of s' = { View.of s₀ with lock := false } := hv'.trans (by rw [hv]; rfl)
      exact .acceptedTaint (Or.inr ⟨hp₀, e, he, hlen⟩) (hview ▸ ht)
  | false =>
      simp only [Bool.false_eq_true, if_false]
      refine sat_autoLock setProcessingView (fun b v σ => rfl) hsession hp fun s₁ hs₁ hv₁ => ?_
      have hp₀ : (View.of s₀).processing = false := by
        rw [← hp, ← hproc, hv]
      have hview : View.of s₁ = { View.of s₀ with lock := false, processing := true } := by
        rw [hv₁, hv]
        rfl
      have hentry : LoopEntry h request index (.accepted index) s₀ s₁ := by
        have hve₁ : (View.of s₁).epochs index = some e := by
          rw [hview]
          exact he
        refine ⟨hs₁, epoch_there hve₁, fun e' he' => ?_⟩
        have hee : e' = e := by
          rw [hview] at he'
          exact Option.some.inj (he'.symm.trans he)
        subst hee
        refine ⟨fun hpend => ?_, fun _ => ?_⟩
        · rw [hpend] at hlen
          cases hlen
        · rw [hview]
          exact .accepted hlock he hlen hp₀
      refine Prog.sat_mono (sat_pendingInputsLoop fuel fuel hindex hentry) ?_ ?_
      · rintro _ ph s₀ s ⟨hlive, htrans⟩
        refine ⟨hlive, fun s₂ hs₂ hv₂ => ⟨hs₂, fun s₃ hs₃ hv₃ => ⟨hs₃, ?_⟩⟩⟩
        rw [hv₃, hv₂]
        exact htrans
      · intro e ph s₀ s hraised
        have hlive : Live s := by
          rcases hraised with ⟨number, hraised⟩
          exact hraised.live
        refine ⟨hlive, fun s₂ hs₂ hv₂ => ⟨hs₂, fun s₃ hs₃ hv₃ => ?_⟩⟩
        refine caught_of_loopRaised hraised hs₃ ?_
        rw [hv₃, hv₂]
        rfl

/-- AdvanceState in the locked session, from the acknowledgement on. -/
theorem sat_acknowledged (fuel : Nat) {s : HandlerContext}
    (hindex : index = request.activeEpochIndex) (hs : Live s) :
    Prog.Sat sessionProtocol h (.advanceState request)
      (Released (setLockView false) fun _ ph s₀ s =>
        sessionProtocol.Step h (.advanceState request) ph s₀ none s)
      (Released (setLockView false) (Caught h request))
      (do
        sessionLockField.release 0 "AdvanceState session lock"
        let e ← getEpoch 0 index
        if e.pendingInputs.length = 1 then
          processPendingInputs fuel h 0 index) (.accepted index) s s := by
  obtain ⟨session, hsession⟩ := id hs
  rw [Prog.bind_eq, Prog.sat_bind]
  refine sat_release hsession ?_ ?_
  · -- the lock is not there any more, and releasing it throws
    refine fun hfree what => ⟨hs, fun s' hs' hv' => ⟨hs', fun t v' ht => ?_⟩⟩
    rw [hv'] at ht
    exact .acceptedTaint (Or.inl hfree) ht
  · intro hlock s₁ hs₁ hv₁
    rw [Prog.bind_eq, Prog.sat_bind]
    refine sat_getEpoch hs₁ (fun hnone => ?_) fun e he => ?_
    · rw [hv₁] at hnone
      exact .lost (.epoch rfl hnone)
    have hve : (View.of s).epochs index = some e := by
      rw [view_epochs hsession]
      exact he
    split
    · rename_i hlen
      exact sat_processPendingInputs fuel hindex ⟨_, hs₁⟩ hlock hv₁ hve hlen
    · rename_i hlen
      refine ⟨⟨_, hs₁⟩, fun s' hs' hv' => ⟨hs', ?_⟩⟩
      rw [hv', hv₁]
      exact .acceptedIdle hlock hve hlen

theorem sat_advanceStateBody (fuel : Nat) {s₀ s : HandlerContext} (hs : Live s)
    (hlock : (View.of s₀).lock = false) (hv : View.of s = { View.of s₀ with lock := true }) :
    Prog.Sat sessionProtocol h (.advanceState request)
      (Released (setLockView false) fun _ ph s₀ s =>
        sessionProtocol.Step h (.advanceState request) ph s₀ none s)
      (Released (setLockView false) (Caught h request))
      (advanceStateBody fuel h 0 request) .fresh s₀ s := by
  unfold advanceStateBody
  rw [Prog.bind_eq, Prog.sat_bind]
  refine sat_checkAdvanceState hs ?_ ?_
  · refine fun status => ⟨hs, fun s' hs' hv' => ⟨hs', fun status => ?_⟩⟩
    have hview : View.of s' = View.of s₀ := by
      rw [hv', hv, setLockView, ← hlock]
    rw [hview]
    exact .refuse
  · rw [hv]
    intro e input htaint hactive he hstate hnumber hcurrent hinput
    obtain ⟨session, hsession⟩ := hs
    rw [hactive]
    simp only [Prog.bind_eq, Prog.sat_bind]
    have hat : PhaseAt (.advanceState request) (.accepted (View.of s₀).active) (.finish .void) := by
      rw [show (View.of s₀).active = request.activeEpochIndex from hactive.symm]
      exact .accepted
    refine sat_modifyEpoch hsession (epoch_there (by rw [hv]; exact he)) fun e' s₁ _ hs₁ hv₁ => ?_
    refine sat_finish (.accepted (View.of s₀).active) ⟨_, hs₁⟩ hat ?_ fun s₂ hs₂ => ?_
    · rw [hv₁, hv]
      exact .accept hlock htaint hactive he hstate hnumber hcurrent hinput
    · have hack := @sat_acknowledged _ h request (View.of s₀).active fuel s₂ hactive.symm hs₂
      simp only [Prog.bind_eq, Prog.sat_bind] at hack
      exact hack

/-- The catch clauses that taint the session. -/
theorem sat_taintAndHandOver {status : Status} {ph : Phase} {s₀ s : HandlerContext}
    {E : Exn → Phase → HandlerContext → HandlerContext → Prop} (hs : Live s)
    (ht : ∀ t v', Taints h (View.of s) t v' →
      Trans h (.advanceState request) ph (View.of s₀) t v') :
    Prog.Sat sessionProtocol h (.advanceState request)
      (fun _ ph s₀ s => sessionProtocol.Step h (.advanceState request) ph s₀ none s) E
      (taintAndHandOver h 0 status) ph s₀ s := by
  obtain ⟨session, hsession⟩ := hs
  have hactive : (View.of s).active = session.activeEpochIndex := by
    rw [← view_withSession hsession]
    rfl
  simp only [taintAndHandOver, Prog.bind_eq, Prog.sat_bind]
  refine sat_modifySession (g := fun v => { v with tainted := true }) hsession (fun v => rfl)
    fun s₁ hs₁ hv₁ => ?_
  simp only [sat_getSession hs₁, epochsAt, Prog.bind_eq, Prog.sat_bind]
  cases he : session.epochs.lookup session.activeEpochIndex with
  | none =>
      simp only [Prog.sat_bind]
      refine sat_modifySession (g := fun v => { v with
          epochs := Function.update v.epochs session.activeEpochIndex (some EpochType.new) })
        hs₁ ?_ fun s₂ hs₂ hv₂ => ⟨⟨_, hs₂⟩, ?_⟩
      · intro v
        unfold View.withSession
        rw [lookup_insert_epoch]
      · rw [hv₂, hv₁, ← hactive]
        refine ht _ _ (.missing ?_)
        rw [view_epochs hsession, hactive]
        exact he
  | some e =>
      have hve : (View.of s).epochs (View.of s).active = some e := by
        rw [view_epochs hsession, hactive]
        exact he
      cases hq : e.pendingQuery with
      | none =>
          simp only [Prog.pure_eq, Prog.Sat, hq]
          refine ⟨⟨_, hs₁⟩, ?_⟩
          rw [hv₁]
          exact ht _ _ (.quiet hve hq)
      | some q =>
          simp only [Prog.pure_eq, Prog.Sat, hq, Prog.sat_bind]
          refine sat_handOver hs₁ (by rw [hv₁, ← hactive]; exact epoch_there hve) fun s₂ hs₂ hv₂ => ?_
          refine ⟨.leaving, .leaving, ⟨hs₂, ?_⟩, fun _ s₃ hs₃ => ⟨hs₃, .left⟩⟩
          rw [hv₂, hv₁, ← hactive]
          exact ht _ _ (.handOver hve hq)

/-- AdvanceState keeps to the protocol. -/
theorem keeps_advanceState (fuel : Nat) (peer : String) {s : HandlerContext} (hs : Live s) :
    sessionProtocol.Keeps h (.advanceState request)
      (newAdvanceStateHandler fuel h peer request) .fresh s := by
  refine sat_onArrival hs ?_
  unfold Protocol.Keeps
  rw [Prog.sat_tryCatch]
  refine Prog.sat_mono (E := Caught h request) ?_ (fun _ _ _ _ hQ => hQ) ?_
  · -- the try block
    have hrefuse : ∀ status, Caught h request (.finishErrorYieldNone status) .fresh s s :=
      fun status => ⟨hs, fun status => .refuse⟩
    simp only [Prog.bind_eq, Prog.sat_bind]
    refine sat_findSession hs (sat_checkEpochOverflow hs hrefuse fun _ => ?_)
    exact sat_withSessionLock hs hrefuse fun hlock s' hs' hv' =>
      sat_advanceStateBody fuel hs' hlock hv'
  · -- the catch clauses
    rintro (status | ⟨ref, status⟩ | what) ph s₀ s₁ ⟨hs₁, hcaught⟩
    · exact sat_refused hs₁ (hcaught status)
    · obtain ⟨rfl, htaint⟩ := hcaught
      exact sat_taintAndHandOver hs₁ htaint
    · obtain ⟨session, hsession⟩ := id hs₁
      simp only [Prog.bind_eq, Prog.sat_bind, sat_getContext, hsession]
      exact sat_taintAndHandOver hs₁ hcaught

end ServerManager
