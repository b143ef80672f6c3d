import ServerManager.Theory.Sections

/-!
# The Records of a Session

What a session remembers for good: its epochs without the query that may be
pending in them, the index of the active epoch, the two counters, and the
requests that were answered OK and left a trace. `RecordStep` is everything a
segment can do to them. Most segments do nothing, and of those that do something
each kind is one constructor, with the conditions under which the handler got
there.

## Main definitions

* `View.records`, `View.notes`: Epochs without their query, and the log.
* `epochOf`, `activeEpoch`, `processedCount`: The epochs and the counter of a world.
* `FreshView`: The view of a session that was just started.
* `QueryOnly`: A change that only touches the query.
* `RecordStep`: What a segment does to the records.

## Theorems

* `trans_records`: Every step of the protocol is a record step.
-/

namespace ServerManager

open Coroutine

variable [Keccak]

namespace View

/-- The epochs without their query. -/
def records (v : View) : UInt64 → Option EpochType := fun i => (v.epochs i).map clearQuery

/-- The requests answered OK that changed the epochs. -/
def notable : Rpc × Answer → Bool
  | (.advanceState _, .finish _) | (.finishEpoch _, .finish _) | (.deleteEpoch _, .finish _) => true
  | _ => false

/-- The notable part of the log. -/
def notes (v : View) : List (Rpc × Answer) := v.sent.filter notable

end View

section Enters

variable {w : Manager} {φ : HandlerId → Option Phase} {e : Event} {i : HandlerId} {rpc : Rpc}
  {ph : Phase} {v₀ : View}

theorem Enters.records (henters : Enters w φ e i rpc ph v₀) :
    v₀.records = (View.of w.shared).records := by rw [henters.view]; rfl

theorem Enters.notes (henters : Enters w φ e i rpc ph v₀) :
    v₀.notes = (View.of w.shared).notes := by rw [henters.view]; rfl

end Enters

/-- What a view of a fresh session is: nothing is locked or waiting, and there
    is one epoch, which is open and empty. -/
structure FreshView (v : View) (e : EpochType) : Prop where
  lock : v.lock = false
  processing : v.processing = false
  tainted : v.tainted = false
  epochs : v.epochs = Function.update (fun _ => none) v.active (some e)
  waiting : v.waiting = none
  queue : v.queue = []
  sent : v.sent = []
  state : e.state = .active
  processed : e.processedInputs = []
  pending : e.pendingInputs = []
  query : e.pendingQuery = none

theorem freshView_of {hctx : HandlerContext} {session : SessionType}
    (hfresh : FreshSession hctx session) : ∃ e, FreshView (View.of hctx) e := by
  obtain ⟨e, he, -, hstate, hproc, hpend, hquery, -, -⟩ := hfresh.epochs
  have hlookup : (fun i => session.epochs.lookup i) =
      Function.update (fun _ => none) session.activeEpochIndex (some e) := by
    funext i
    rw [he]
    by_cases hi : i = session.activeEpochIndex
    · rw [hi, Function.update_self]
      exact List.dlookup_cons_eq ..
    · rw [Function.update_of_ne hi]
      exact List.dlookup_cons_ne _ _ hi
  refine ⟨e, ?_⟩
  unfold View.of
  rw [hfresh.entry]
  exact ⟨hfresh.unlocked, hfresh.unprocessed, hfresh.untainted, hlookup, hfresh.waiting,
    hfresh.queue, hfresh.sent, hstate, hproc, hpend, hquery⟩

/-- Only the query changes. -/
def QueryOnly (f : EpochType → EpochType) : Prop := ∀ e, clearQuery (f e) = clearQuery e

omit [Keccak] in
theorem queryOnly_of_change {f : EpochType → EpochType} (hf : QueryChange f) : QueryOnly f := by
  intro e
  rw [(hf e).1]
  rfl

omit [Keccak] in
theorem queryOnly_clear : QueryOnly clearQuery := fun _ => rfl

omit [Keccak] in
theorem queryOnly_set (q : QueryType) : QueryOnly (setQuery q) := fun _ => rfl

omit [Keccak] in
theorem queryOnly_coroutine (h : HandlerId) : QueryOnly (setCoroutine h) := fun _ => rfl

omit [Keccak] in
theorem records_of_update {v v' : View} {index : UInt64} {e r : Option EpochType}
    (hv : v'.epochs = Function.update v.epochs index e) (hr : e.map clearQuery = r) :
    v'.records = Function.update v.records index r := by
  funext i
  unfold View.records
  rw [hv, ← hr]
  by_cases hi : i = index
  · rw [hi, Function.update_self, Function.update_self]
  · rw [Function.update_of_ne hi, Function.update_of_ne hi]

omit [Keccak] in
theorem records_mapEpoch (v : View) (index : UInt64) (f : EpochType → EpochType) :
    (v.mapEpoch index f).records =
      Function.update v.records index ((v.epochs index).map fun e => clearQuery (f e)) := by
  exact records_of_update rfl (Option.map_map ..)

omit [Keccak] in
/-- A change of a query leaves no trace in the records. -/
theorem records_queryOnly (v : View) (index : UInt64) {f : EpochType → EpochType}
    (hf : QueryOnly f) : (v.mapEpoch index f).records = v.records := by
  rw [records_mapEpoch, show (fun e => clearQuery (f e)) = clearQuery from funext hf]
  exact Function.update_eq_self index v.records

omit [Keccak] in
/-- A change of the trees shows in the records as one. -/
theorem records_tree (v : View) (index : UInt64) {f : EpochType → EpochType}
    (hf : TreeChange f) : ∃ g, TreeChange g ∧
      (v.mapEpoch index f).records =
        Function.update v.records index ((v.records index).map g) := by
  rw [records_mapEpoch]
  unfold View.records
  cases v.epochs index with
  | none => exact ⟨id, fun _ => rfl, rfl⟩
  | some e =>
      refine ⟨fun e' => { e' with
        vouchersTree := (f e).vouchersTree
        noticesTree := (f e).noticesTree }, fun _ => rfl, ?_⟩
      have hfe : clearQuery (f e) = { clearQuery e with
          vouchersTree := (f e).vouchersTree, noticesTree := (f e).noticesTree } := by
        conv_lhs => rw [hf e]
        rfl
      rw [Option.map_some, Option.map_some, Option.map_some, hfe]

omit [Keccak] in
theorem FreshView.records {v : View} {e : EpochType} (hv : FreshView v e) :
    v.records = Function.update (fun _ => none) v.active (some (clearQuery e)) := by
  funext i
  unfold View.records
  rw [hv.epochs]
  by_cases hi : i = v.active
  · rw [hi, Function.update_self, Function.update_self]
    rfl
  · rw [Function.update_of_ne hi, Function.update_of_ne hi]
    rfl

omit [Keccak] in
theorem FreshView.notes {v : View} {e : EpochType} (hv : FreshView v e) : v.notes = [] := by
  unfold View.notes
  rw [hv.sent]
  rfl

/-- The epoch of a session under an index. -/
def epochOf (w : Manager) (i : UInt64) : Option EpochType :=
  w.shared.session.bind fun s => s.2.epochs.lookup i

omit [Keccak] in
theorem epochOf_eq (w : Manager) (i : UInt64) : epochOf w i = (View.of w.shared).epochs i := by
  unfold epochOf View.of
  cases w.shared.session with
  | none => rfl
  | some entry => rfl

omit [Keccak] in
theorem epochOf_records {w : Manager} {i : UInt64} {e : EpochType} (he : epochOf w i = some e) :
    (View.of w.shared).records i = some (clearQuery e) := by
  rw [epochOf_eq] at he
  unfold View.records
  rw [he]
  rfl

/-- The index of the active epoch of the session. -/
def activeEpoch (w : Manager) : UInt64 :=
  (w.shared.session.map fun s => s.2.activeEpochIndex).getD 0

/-- `processed_input_count` of the session. -/
def processedCount (w : Manager) : UInt64 :=
  (w.shared.session.map fun s => s.2.processedInputCount).getD 0

omit [Keccak] in
theorem activeEpoch_eq (w : Manager) : activeEpoch w = (View.of w.shared).active := by
  unfold activeEpoch View.of
  cases w.shared.session with
  | none => rfl
  | some entry => rfl

omit [Keccak] in
theorem processedCount_eq (w : Manager) : processedCount w = (View.of w.shared).count := by
  unfold processedCount View.of
  cases w.shared.session with
  | none => rfl
  | some entry => rfl

omit [Keccak] in
theorem view_of_sent (s : HandlerContext) : (View.of s).sent = s.sent := by
  unfold View.of
  cases s.session with
  | none => rfl
  | some entry => rfl

/-- The record of an epoch after an input was recorded in it and removed. -/
def recorded (vouchersTree noticesTree : CompleteMerkleTree HashType) (hash : HashType)
    (i : ProcessedInputType) (e : EpochType) : EpochType :=
  { e with
    vouchersTree := vouchersTree
    noticesTree := noticesTree
    mostRecentMachineHash := hash
    processedInputs := e.processedInputs ++ [i]
    pendingInputs := e.pendingInputs.tail }

omit [Keccak] in
/-- A recorded input shows in the records, whatever is done to the query. -/
theorem records_record (v : View) (index number : UInt64) {f g : EpochType → EpochType}
    (hf : RecordChange number f) (hg : QueryOnly g) {e : EpochType}
    (he : v.epochs index = some e) :
    ∃ vouchersTree noticesTree hash i, i.inputIndex = number ∧
      (v.mapEpoch index fun e => g (f e)).records = Function.update v.records index
        (some (recorded vouchersTree noticesTree hash i (clearQuery e))) := by
  obtain ⟨i, hi, hfe⟩ := hf e
  refine ⟨(f e).vouchersTree, (f e).noticesTree, (f e).mostRecentMachineHash, i, hi, ?_⟩
  have hclear : clearQuery (g (f e)) = recorded (f e).vouchersTree (f e).noticesTree
      (f e).mostRecentMachineHash i (clearQuery e) := by
    rw [hg (f e)]
    conv_lhs => rw [hfe]
    rfl
  rw [records_mapEpoch, he, Option.map_some, hclear]

/-- The records after FinishEpoch started the next epoch. -/
def startedRecords (records : UInt64 → Option EpochType) (active index : UInt64) (e : EpochType) :
    UInt64 → Option EpochType :=
  Function.update (Function.update records index (some (finishedEpoch e).1)) (active + 1)
    (some { EpochType.new with
      epochIndex := active + 1
      mostRecentMachineHash := e.mostRecentMachineHash })

/-- The hashes in the response of FinishEpoch are those of the epoch. -/
structure Returns (e : EpochType) (response : FinishEpochResponse) : Prop where
  machine : response.machineHash = e.mostRecentMachineHash
  vouchers : e.vouchersTree.getRootHash = .ok response.vouchersEpochRootHash
  notices : e.noticesTree.getRootHash = .ok response.noticesEpochRootHash

omit [Keccak] in
theorem returns_of_response {e : EpochType} {response : FinishEpochResponse}
    (hr : setProtoFinishEpochResponse e = .ok response) : Returns e response := by
  unfold setProtoFinishEpochResponse at hr
  cases hv : e.vouchersTree.getRootHash with
  | error what => rw [hv] at hr; cases hr
  | ok vouchers =>
      cases hn : e.noticesTree.getRootHash with
      | error what => rw [hv, hn] at hr; cases hr
      | ok notices =>
          cases hp : epochProofs e e.processedInputs with
          | error what => rw [hv, hn, hp] at hr; cases hr
          | ok proofs =>
              rw [hv, hn, hp] at hr
              cases hr
              exact ⟨rfl, hv, hn⟩

/-- How FinishEpoch got to the point from which it does not wait any more: at
    once, or after the store call. -/
inductive FinishReady (request : FinishEpochRequest) (v : View) (e : EpochType) : Phase → Prop
  | atOnce (hlock : v.lock = false) (htaint : v.tainted = false)
      (hmax : v.active ≠ 0xFFFFFFFFFFFFFFFF) (hdir : request.storageDirectory = "")
      (hstate : e.state = .active) (hpend : e.pendingInputs = []) :
      FinishReady request v e .fresh
  | afterStore : FinishReady request v e (.storing request.activeEpochIndex)

/-- What a segment does to the records of the session. -/
inductive RecordStep (rpc : Rpc) (ph : Phase) (v v' : View) : Prop
  | quiet (hrec : v'.records = v.records) (hactive : v'.active = v.active)
      (hcount : v'.count = v.count) (hmcycle : v'.mcycle = v.mcycle) (hnotes : v'.notes = v.notes)
  | tree {index number : UInt64} {stage : Stage} {g : EpochType → EpochType} (hg : TreeChange g)
      (hph : ph = .advancing index number stage)
      (hrec : v'.records = Function.update v.records index ((v.records index).map g))
      (hactive : v'.active = v.active) (hcount : v'.count = v.count)
      (hmcycle : v'.mcycle = v.mcycle) (hnotes : v'.notes = v.notes)
  | record {index number : UInt64} {stage : Stage} {e : EpochType}
      {vouchersTree noticesTree : CompleteMerkleTree HashType} {hash : HashType}
      {i : ProcessedInputType} (hph : ph = .advancing index number stage)
      (he : v.records index = some e) (hi : i.inputIndex = number)
      (hrec : v'.records = Function.update v.records index
        (some (recorded vouchersTree noticesTree hash i e)))
      (hactive : v'.active = v.active) (hcount : v'.count = v.count + 1)
      (hnotes : v'.notes = v.notes)
  | accept {request : AdvanceStateRequest} {e : EpochType} {input : InputType}
      (hrpc : rpc = .advanceState request) (hph : ph = .fresh) (hlock : v.lock = false)
      (htaint : v.tainted = false) (hindex : request.activeEpochIndex = v.active)
      (he : v.records v.active = some e) (hstate : e.state = .active)
      (hnumber : input.metadata.inputIndex = UInt64.ofNat e.pendingInputs.length + v.count)
      (hcurrent : request.currentInputIndex = input.metadata.inputIndex)
      (hinput : requestInput request = some input)
      (hrec : v'.records = Function.update v.records v.active
        (some { e with pendingInputs := e.pendingInputs ++ [input] }))
      (hactive : v'.active = v.active) (hcount : v'.count = v.count)
      (hmcycle : v'.mcycle = v.mcycle)
      (hnotes : v'.notes = v.notes ++ [(.advanceState request, .finish .void)])
  | delete {index : UInt64} {e : EpochType} (hrpc : rpc = .deleteEpoch index) (hph : ph = .fresh)
      (hlock : v.lock = false) (he : v.records index = some e) (hstate : e.state ≠ .active)
      (hne : v.active ≠ index) (hrec : v'.records = Function.update v.records index none)
      (hactive : v'.active = v.active) (hcount : v'.count = v.count)
      (hmcycle : v'.mcycle = v.mcycle)
      (hnotes : v'.notes = v.notes ++ [(.deleteEpoch index, .finish .void)])
  | finish {request : FinishEpochRequest} {e : EpochType} (hrpc : rpc = .finishEpoch request)
      (hready : FinishReady request v e ph)
      (he : v.records request.activeEpochIndex = some e)
      (hrec : v'.records = startedRecords v.records v.active request.activeEpochIndex e)
      (hactive : v'.active = v.active + 1) (hcount : v'.count = v.count)
      (hmcycle : v'.mcycle = v.mcycle)
      (hnotes : v'.notes = v.notes ∨ ∃ e' response,
        v'.records request.activeEpochIndex = some e' ∧ Returns e' response ∧
        v'.notes = v.notes ++ [(.finishEpoch request, .finish (.finishEpoch response))])
  | spoil {request : FinishEpochRequest} {e : EpochType} (hrpc : rpc = .finishEpoch request)
      (hready : FinishReady request v e ph)
      (he : v.records request.activeEpochIndex = some e)
      (hrec : v'.records = Function.update v.records request.activeEpochIndex
        (some (finishedEpoch e).1))
      (hactive : v'.active = v.active) (hcount : v'.count = v.count)
      (hmcycle : v'.mcycle = v.mcycle) (hnotes : v'.notes = v.notes)
  /-- The active epoch is not there, which is the case of no session that was
      started by StartSession. -/
  | missing (he : v.records v.active = none)

/-! ### Every step is a record step -/

omit [Keccak] in
theorem notes_answer {v : View} {rpc : Rpc} {a : Answer} (hn : View.notable (rpc, a) = false) :
    (v.answer rpc a).notes = v.notes := by
  simp only [View.notes, View.answer, List.filter_append, List.filter_cons, hn,
    Bool.false_eq_true, if_false, List.filter_nil, List.append_nil]

omit [Keccak] in
theorem notes_noted {v : View} {rpc : Rpc} {a : Answer} (hn : View.notable (rpc, a) = true) :
    (v.answer rpc a).notes = v.notes ++ [(rpc, a)] := by
  simp only [View.notes, View.answer, List.filter_append, List.filter_cons, hn, if_true,
    List.filter_nil]

omit [Keccak] in
theorem notable_error (rpc : Rpc) (status : Status) :
    View.notable (rpc, .finishWithError status) = false := by
  cases rpc <;> rfl

/-- A tainting catch clause changes no record of a session whose active epoch is
    there. -/
theorem taints_records {h : HandlerId} {v v' : View} {t : Option Phase} (ht : Taints h v t v') :
    v.records v.active = none ∨ (v'.records = v.records ∧ v'.active = v.active ∧
      v'.count = v.count ∧ v'.mcycle = v.mcycle ∧ v'.notes = v.notes) := by
  cases ht with
  | quiet he hq => exact Or.inr ⟨rfl, rfl, rfl, rfl, rfl⟩
  | missing he =>
      refine Or.inl ?_
      unfold View.records
      rw [he]
      rfl
  | handOver he hq =>
      exact Or.inr ⟨records_queryOnly v v.active (queryOnly_coroutine h), rfl, rfl, rfl, rfl⟩

omit [Keccak] in
theorem records_some {v : View} {index : UInt64} {e : EpochType} (he : v.epochs index = some e) :
    v.records index = some (clearQuery e) := by
  unfold View.records
  rw [he]
  rfl

theorem records_finishEpoch (v : View) (index : UInt64) (e : EpochType) :
    (v.finishEpoch index e).records =
      startedRecords v.records v.active index (clearQuery e) := by
  have hone : ({ v with epochs := Function.update v.epochs index (some (finishedEpoch e).1) } :
      View).records = Function.update v.records index (some (finishedEpoch (clearQuery e)).1) :=
    records_of_update rfl rfl
  unfold startedRecords
  rw [← hone]
  exact records_of_update rfl rfl

theorem finishes_records {request : FinishEpochRequest} {v₀ v v' : View} {e : EpochType}
    {ph ph' : Phase} (he : v.epochs request.activeEpochIndex = some e)
    (hv : v = { v₀ with lock := v.lock }) (hready : FinishReady request v₀ (clearQuery e) ph)
    (hf : Finishes request v e ph' v') : RecordStep (.finishEpoch request) ph v₀ v' := by
  have he₀ : v₀.records request.activeEpochIndex = some (clearQuery e) := by
    rw [hv] at he
    exact records_some he
  have hrecords : v.records = v₀.records := by rw [hv]; rfl
  have hactive : v.active = v₀.active := by rw [hv]
  have hcount : v.count = v₀.count := by rw [hv]
  have hmcycle : v.mcycle = v₀.mcycle := by rw [hv]
  have hnotes : v.notes = v₀.notes := by rw [hv]; rfl
  have hstarted := records_finishEpoch v request.activeEpochIndex e
  rw [hrecords, hactive] at hstarted
  cases hf with
  | @answered response e' he' hr =>
      refine .finish rfl hready he₀ hstarted (congrArg (· + 1) hactive) hcount hmcycle
        (Or.inr ⟨clearQuery e', response, records_some he', ?_, ?_⟩)
      · obtain ⟨hm, hv, hn⟩ := returns_of_response hr
        exact ⟨hm, hv, hn⟩
      · rw [← hnotes]
        exact notes_noted rfl
  | proofFailed =>
      refine .spoil rfl hready he₀ ?_ hactive hcount hmcycle ?_
      · rw [← hrecords]
        exact records_of_update rfl rfl
      · rw [← hnotes]
        exact notes_answer (notable_error _ _)
  | responseFailed =>
      refine .finish rfl hready he₀ hstarted (congrArg (· + 1) hactive) hcount hmcycle
        (Or.inl ?_)
      rw [← hnotes]
      exact notes_answer (notable_error _ _)

omit [Keccak] in
theorem wake_records (v : View) (g : Option HandlerId) :
    (v.wake g).records = v.records ∧ (v.wake g).active = v.active ∧ (v.wake g).count = v.count ∧
      (v.wake g).mcycle = v.mcycle ∧ (v.wake g).notes = v.notes := by
  cases g <;> exact ⟨rfl, rfl, rfl, rfl, rfl⟩

theorem starts_records {h : HandlerId} {rpc : Rpc} {ph ph' : Phase} {v v' : View}
    (hs : Starts h rpc ph v ph' v') : RecordStep rpc ph v v' := by
  cases hs with
  | accepted => exact .quiet rfl rfl rfl rfl rfl
  | handedOff => exact .quiet rfl rfl rfl rfl rfl
  | @recorded _ _ index number _ _ f _ he hf _ _ =>
      obtain ⟨vt, nt, hash, i, hi, hrec⟩ := records_record v index number hf (fun _ => rfl) he
      exact .record rfl (records_some he) hi hrec rfl rfl rfl
  | inspect => exact .quiet (records_queryOnly _ _ (queryOnly_set _)) rfl rfl rfl rfl
  | queued _ _ _ hf =>
      exact .quiet (records_queryOnly _ _ (queryOnly_of_change hf)) rfl rfl rfl rfl

/-- Every step of the protocol is a record step. -/
theorem trans_records {h : HandlerId} {rpc : Rpc} {ph : Phase} {v v' : View} {t : Option Phase}
    (hstep : Trans h rpc ph v t v') : RecordStep rpc ph v v' := by
  cases hstep with
  | refuse => exact .quiet rfl rfl rfl rfl (notes_answer (notable_error _ _))
  | report hrpc =>
      refine .quiet rfl rfl rfl rfl (notes_answer ?_)
      obtain rfl | ⟨index, rfl⟩ := hrpc <;> rfl
  | delete hlock he hstate hne =>
      exact .delete rfl rfl hlock (records_some he) hstate hne (records_of_update rfl rfl) rfl rfl rfl
        (notes_noted rfl)
  | finish hlock htaint hmax hdir he hstate hpend hf =>
      have he' : ({ v with lock := true } : View).epochs _ = some _ := he
      exact finishes_records he' rfl (.atOnce hlock htaint hmax hdir hstate hpend) hf
  | stored he hf => exact finishes_records he rfl .afterStore hf
  | storeFailed => exact .quiet rfl rfl rfl rfl (notes_answer (notable_error _ _))
  | start hs => exact starts_records hs
  | accept hlock htaint hindex he hstate hnumber hcurrent hinput =>
      refine .accept rfl rfl hlock htaint hindex (records_some he) hstate hnumber hcurrent hinput
        ?_ rfl rfl rfl (notes_noted rfl)
      refine (records_mapEpoch v v.active _).trans ?_
      rw [he]
      rfl
  | acceptedTaint hwhy ht =>
      obtain he | ⟨hrec, hactive, hcount, hmcycle, hnotes⟩ := taints_records ht
      · exact .missing he
      · exact .quiet hrec hactive hcount hmcycle hnotes
  | @advance _ _ index _ _ _ _ _ hf hw =>
      obtain ⟨g, hg, hrec⟩ := records_tree v index hf
      exact .tree hg rfl hrec rfl rfl rfl rfl
  | @advanceTaint _ _ _ index _ _ _ _ hf ht =>
      obtain ⟨g, hg, htree⟩ := records_tree v index hf
      obtain he | ⟨hrec, hactive, hcount, hmcycle, hnotes⟩ := taints_records ht
      · refine .missing ?_
        have he' : (v.mapEpoch index _).records v.active = none := he
        rw [htree] at he'
        by_cases hi : v.active = index
        · rw [hi, Function.update_self] at he'
          rw [hi]
          exact Option.map_eq_none_iff.1 he'
        · rwa [Function.update_of_ne hi] at he'
      · exact .tree hg rfl (hrec.trans htree) hactive hcount hmcycle hnotes
  | @advanceFail _ _ index _ _ _ _ hf hstub =>
      obtain ⟨g, hg, hrec⟩ := records_tree v index hf
      exact .tree hg rfl hrec rfl rfl rfl (notes_answer (notable_error _ _))
  | @advancePark _ _ index number _ _ _ _ _ he hf hq =>
      obtain ⟨vt, nt, hash, i, hi, hrec⟩ :=
        records_record v index number hf (queryOnly_coroutine h) he
      exact .record rfl (records_some he) hi hrec rfl rfl rfl
  | @advanceExit _ _ index number _ _ _ _ he hf hq hpend =>
      obtain ⟨vt, nt, hash, i, hi, hrec⟩ := records_record v index number hf (fun _ => rfl) he
      exact .record rfl (records_some he) hi hrec rfl rfl rfl
  | queue => exact .quiet (records_queryOnly _ _ (queryOnly_set _)) rfl rfl rfl rfl
  | inspectQuick => exact .quiet rfl rfl rfl rfl (notes_answer rfl)
  | queuedQuick =>
      exact .quiet (records_queryOnly _ _ queryOnly_clear) rfl rfl rfl (notes_answer rfl)
  | queuedRefuse =>
      obtain ⟨hrec, hactive, hcount, hmcycle, hnotes⟩ := wake_records v _
      exact .quiet hrec hactive hcount hmcycle ((notes_answer (notable_error _ _)).trans hnotes)
  | @inspect _ _ index _ _ _ _ _ hf hw =>
      exact .quiet (records_queryOnly _ _ (queryOnly_of_change hf)) rfl rfl rfl rfl
  | @inspectFail _ _ index coroutine _ _ f _ hf hstub =>
      obtain ⟨hrec, hactive, hcount, hmcycle, hnotes⟩ :=
        wake_records (v.mapEpoch index f) coroutine
      exact .quiet (hrec.trans (records_queryOnly _ _ (queryOnly_of_change hf))) hactive hcount
        hmcycle ((notes_answer (notable_error _ _)).trans hnotes)
  | inspectDone =>
      exact .quiet (records_queryOnly _ _ queryOnly_clear) rfl rfl rfl (notes_answer rfl)
  | inspected =>
      obtain ⟨hrec, hactive, hcount, hmcycle, hnotes⟩ := wake_records v _
      exact .quiet hrec hactive hcount hmcycle hnotes
  | checkIn => exact .quiet rfl rfl rfl rfl (notes_answer rfl)
  | _ => exact .quiet rfl rfl rfl rfl rfl

end ServerManager
