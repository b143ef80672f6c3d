import ServerManager.Theory.Epochs

/-!
# The Order of the Inputs

An input gets its number from two counters: the inputs of the epoch that wait,
and the inputs the session has processed. AdvanceState adds to the first when it
accepts an input, and the handler that processes takes from the first and adds
to the second when it is done with one. In between any number of segments of
other handlers run. Still the numbers are consecutive, in the order in which the
inputs were accepted, and every input is recorded under the number it was
accepted with.

## Main definitions

* `acceptedRequests`: The requests answered OK for an epoch.
* `Numbered`: Inputs with consecutive numbers.
* `EpochOrdered`: The inputs of an epoch are those accepted for it.
* `Ordered`: The same for all epochs, with the counters.
* `InputsOrdered`: The property of a world.

## Theorems

* `ordered_step`: The order after a record step.
* `inputs_ordered`: Every input is processed once and in order, in every run.
-/

namespace ServerManager

open Coroutine

variable [Keccak]

/-! ### Numbered inputs -/

/-- The request, if it is an AdvanceState that was answered OK for the epoch. -/
def acceptedFor (i : UInt64) : Rpc × Answer → Option AdvanceStateRequest
  | (.advanceState request, .finish _) =>
    if request.activeEpochIndex = i then some request else none
  | _ => none

/-- The AdvanceState requests answered OK for an epoch, in order. -/
def acceptedRequests (log : List (Rpc × Answer)) (i : UInt64) : List AdvanceStateRequest :=
  log.filterMap (acceptedFor i)

omit [Keccak] in
theorem acceptedRequests_notes (v : View) (i : UInt64) :
    acceptedRequests v.notes i = acceptedRequests v.sent i := by
  unfold acceptedRequests View.notes
  rw [List.filterMap_filter]
  congr 1
  funext x
  by_cases hx : View.notable x = true
  · rw [if_pos hx]
  · rw [if_neg hx]
    obtain ⟨rpc, a⟩ := x
    cases rpc <;> cases a <;> first | rfl | exact absurd rfl hx

omit [Keccak] in
theorem acceptedRequests_other {log : List (Rpc × Answer)} {rpc : Rpc} {a : Answer}
    (hrpc : ∀ request, rpc ≠ .advanceState request) (i : UInt64) :
    acceptedRequests (log ++ [(rpc, a)]) i = acceptedRequests log i := by
  unfold acceptedRequests
  rw [List.filterMap_append]
  cases rpc with
  | advanceState request => exact absurd rfl (hrpc request)
  | _ => exact List.append_nil _

omit [Keccak] in
theorem acceptedRequests_accept (log : List (Rpc × Answer)) (request : AdvanceStateRequest)
    (response : Response) (i : UInt64) :
    acceptedRequests (log ++ [(.advanceState request, .finish response)]) i =
      acceptedRequests log i ++ if request.activeEpochIndex = i then [request] else [] := by
  unfold acceptedRequests
  rw [List.filterMap_append]
  by_cases hi : request.activeEpochIndex = i
  · rw [if_pos hi]
    simp only [List.filterMap_cons, acceptedFor, if_pos hi, List.filterMap_nil]
  · rw [if_neg hi]
    simp only [List.filterMap_cons, acceptedFor, if_neg hi, List.filterMap_nil]

/-- The inputs have consecutive numbers. -/
def Numbered (start : UInt64) (inputs : List InputType) : Prop :=
  ∀ j input, inputs[j]? = some input → input.metadata.inputIndex = start + UInt64.ofNat j

omit [Keccak] in
theorem numbered_snoc {start : UInt64} {inputs : List InputType} {input : InputType}
    (hn : Numbered start inputs)
    (hinput : input.metadata.inputIndex = start + UInt64.ofNat inputs.length) :
    Numbered start (inputs ++ [input]) := by
  intro j x hx
  rw [List.getElem?_append] at hx
  by_cases hj : j < inputs.length
  · rw [if_pos hj] at hx
    exact hn j x hx
  · rw [if_neg hj] at hx
    obtain ⟨hlt, hget⟩ := List.getElem?_eq_some_iff.1 hx
    have hj' : j = inputs.length := by
      have hlen : ([input] : List InputType).length = 1 := rfl
      omega
    subst hj'
    simp only [Nat.sub_self, List.getElem_cons_zero] at hget
    rw [← hget]
    exact hinput

/-- The inputs an epoch has seen are those of the requests accepted for it. The
    first of them were processed, each under its own number, and the others
    wait. -/
def EpochOrdered (start : UInt64) (requests : List AdvanceStateRequest) (e : EpochType) : Prop :=
  ∃ processed : List InputType,
    requests.map requestInput = (processed ++ e.pendingInputs).map some ∧
    e.processedInputs.map ProcessedInputType.inputIndex =
      processed.map (fun input => input.metadata.inputIndex) ∧
    Numbered start (processed ++ e.pendingInputs)

omit [Keccak] in
/-- What matters of an epoch for the order. -/
theorem EpochOrdered.congr {start : UInt64} {requests : List AdvanceStateRequest}
    {e e' : EpochType} (ho : EpochOrdered start requests e)
    (hproc : e'.processedInputs.map ProcessedInputType.inputIndex =
      e.processedInputs.map ProcessedInputType.inputIndex)
    (hpend : e'.pendingInputs = e.pendingInputs) : EpochOrdered start requests e' := by
  obtain ⟨processed, hreq, hindex, hnum⟩ := ho
  refine ⟨processed, ?_, hproc.trans hindex, ?_⟩
  · rw [hpend]; exact hreq
  · rw [hpend]; exact hnum

omit [Keccak] in
/-- An input is accepted under the next number. -/
theorem EpochOrdered.accept {start : UInt64} {requests : List AdvanceStateRequest}
    {e : EpochType} {request : AdvanceStateRequest} {input : InputType}
    (ho : EpochOrdered start requests e) (hinput : requestInput request = some input)
    (hnumber : input.metadata.inputIndex = start +
      UInt64.ofNat (e.processedInputs.length + e.pendingInputs.length)) :
    EpochOrdered start (requests ++ [request])
      { e with pendingInputs := e.pendingInputs ++ [input] } := by
  obtain ⟨processed, hreq, hindex, hnum⟩ := ho
  have hlen : processed.length = e.processedInputs.length := by
    have := congrArg List.length hindex
    rwa [List.length_map, List.length_map, eq_comm] at this
  refine ⟨processed, ?_, hindex, ?_⟩
  · have happ : (processed ++ (e.pendingInputs ++ [input])).map some =
        (processed ++ e.pendingInputs).map some ++ [some input] := by
      rw [← List.append_assoc, List.map_append]
      rfl
    rw [List.map_append, hreq, List.map_singleton, hinput, happ]
  · rw [← List.append_assoc]
    refine numbered_snoc hnum ?_
    rw [List.length_append, hlen]
    exact hnumber

omit [Keccak] in
/-- The first input that waits is recorded under its number. -/
theorem EpochOrdered.record {start : UInt64} {requests : List AdvanceStateRequest}
    {e : EpochType} {vouchersTree noticesTree : CompleteMerkleTree HashType} {hash : HashType}
    {i : ProcessedInputType} (ho : EpochOrdered start requests e) (hpend : e.pendingInputs ≠ [])
    (hi : i.inputIndex = start + UInt64.ofNat e.processedInputs.length) :
    EpochOrdered start requests (recorded vouchersTree noticesTree hash i e) := by
  obtain ⟨processed, hreq, hindex, hnum⟩ := ho
  have hlen : processed.length = e.processedInputs.length := by
    have := congrArg List.length hindex
    rwa [List.length_map, List.length_map, eq_comm] at this
  obtain ⟨input, rest, hcons⟩ := List.exists_cons_of_ne_nil hpend
  have hsplit : processed ++ e.pendingInputs = (processed ++ [input]) ++ rest := by
    rw [hcons, List.append_assoc]
    rfl
  have htail : (recorded vouchersTree noticesTree hash i e).pendingInputs = rest := by
    show e.pendingInputs.tail = rest
    rw [hcons]
    rfl
  have hnumber : input.metadata.inputIndex = start + UInt64.ofNat processed.length := by
    refine hnum processed.length input ?_
    rw [hcons, List.getElem?_append_right (Nat.le_refl _), Nat.sub_self]
    rfl
  refine ⟨processed ++ [input], ?_, ?_, ?_⟩
  · rw [htail, ← hsplit]; exact hreq
  · show (e.processedInputs ++ [i]).map ProcessedInputType.inputIndex = _
    rw [List.map_append, List.map_append, hindex, List.map_singleton, List.map_singleton, hi,
      hnumber, hlen]
  · rw [htail, ← hsplit]; exact hnum

/-! ### All epochs -/

/-- The inputs of every epoch are in order, the counter is where the active one
    has got to, and every epoch begins where the one before it ended. -/
structure Ordered (start : UInt64 → UInt64) (r : UInt64 → Option EpochType)
    (active count : UInt64) (notes : List (Rpc × Answer)) : Prop where
  epochs : ∀ i e, r i = some e → EpochOrdered (start i) (acceptedRequests notes i) e
  unknown : ∀ i, r i = none → acceptedRequests notes i = []
  counted : ∀ e, r active = some e → count = start active + UInt64.ofNat e.processedInputs.length
  chained : ∀ i e e', r i = some e → r (i + 1) = some e' → i ≠ 0xFFFFFFFFFFFFFFFF →
    start (i + 1) = start i + UInt64.ofNat e.processedInputs.length

section Ordered

variable {start : UInt64 → UInt64} {r : UInt64 → Option EpochType} {active count : UInt64}
  {notes notes' : List (Rpc × Answer)}

omit [Keccak] in
theorem ofNat_succ (n : Nat) : UInt64.ofNat (n + 1) = UInt64.ofNat n + 1 := by
  rw [UInt64.ofNat_add]
  rfl

omit [Keccak] in
/-- Nothing is beyond the active epoch. -/
theorem EpochsOk.beyond (hI : EpochsOk r active notes) (hmax : active ≠ 0xFFFFFFFFFFFFFFFF) :
    r (active + 1) = none := by
  cases he : r (active + 1) with
  | none => rfl
  | some e =>
      have hlt := lt_next_epoch (UInt64.le_refl active) hmax
      exact absurd (hI.below _ _ he) (UInt64.not_le.2 hlt)

omit [Keccak] in
/-- Changing the log without an input being accepted. -/
theorem Ordered.log (ho : Ordered start r active count notes)
    (hlog : ∀ i, acceptedRequests notes' i = acceptedRequests notes i) :
    Ordered start r active count notes' := by
  refine ⟨fun i e he => ?_, fun i hi => ?_, ho.counted, ho.chained⟩
  · rw [hlog i]; exact ho.epochs i e he
  · rw [hlog i]; exact ho.unknown i hi

omit [Keccak] in
/-- Replacing the record of the active epoch, with the counter and the log. -/
theorem Ordered.update (ho : Ordered start r active count notes) (hI : EpochsOk r active notes)
    {e e' : EpochType} (he : r active = some e) {count' : UInt64}
    (hother : ∀ i, i ≠ active → acceptedRequests notes' i = acceptedRequests notes i)
    (he' : EpochOrdered (start active) (acceptedRequests notes' active) e')
    (hcount : count' = start active + UInt64.ofNat e'.processedInputs.length) :
    Ordered start (Function.update r active (some e')) active count' notes' := by
  refine ⟨fun i e₁ h => ?_, fun i h => ?_, fun e₁ h => ?_, fun i e₁ e₂ h₁ h₂ hmax => ?_⟩
  · obtain ⟨hi, hsome⟩ | ⟨hi, hsome⟩ := update_cases h
    · cases hsome
      rw [hi]
      exact he'
    · rw [hother i hi]
      exact ho.epochs i e₁ hsome
  · by_cases hi : i = active
    · rw [hi, Function.update_self] at h
      cases h
    · rw [Function.update_of_ne hi] at h
      rw [hother i hi]
      exact ho.unknown i h
  · rw [Function.update_self] at h
    cases h
    exact hcount
  · -- nothing follows the active epoch, so no epoch begins where it will end
    obtain ⟨rfl, -⟩ | ⟨-, hr₁⟩ := update_cases h₁
    · have hnext : i + 1 ≠ i := (UInt64.ne_of_lt (lt_next_epoch (UInt64.le_refl i) hmax)).symm
      rw [Function.update_of_ne hnext, hI.beyond hmax] at h₂
      cases h₂
    · obtain ⟨hi, -⟩ | ⟨-, hr₂⟩ := update_cases h₂
      · exact ho.chained i e₁ e hr₁ (hi.symm ▸ he) hmax
      · exact ho.chained i e₁ e₂ hr₁ hr₂ hmax

omit [Keccak] in
/-- Starting an empty epoch after the active one. -/
theorem Ordered.next (ho : Ordered start r active count notes) (hI : EpochsOk r active notes)
    (hmax : active ≠ 0xFFFFFFFFFFFFFFFF) {e' : EpochType} (hproc : e'.processedInputs = [])
    (hpend : e'.pendingInputs = []) :
    Ordered (Function.update start (active + 1) count) (Function.update r (active + 1) (some e'))
      (active + 1) count notes := by
  have hold : ∀ {i e}, r i = some e → i ≠ active + 1 := by
    intro i e he
    exact UInt64.ne_of_lt (lt_next_epoch (hI.below i e he) hmax)
  refine ⟨fun i e₁ h => ?_, fun i h => ?_, fun e₁ h => ?_, fun i e₁ e₂ h₁ h₂ hi => ?_⟩
  · obtain ⟨rfl, hsome⟩ | ⟨hi, hsome⟩ := update_cases h
    · cases hsome
      rw [Function.update_self, ho.unknown _ (hI.beyond hmax)]
      refine ⟨[], ?_, ?_, ?_⟩
      · rw [hpend]; rfl
      · rw [hproc]; rfl
      · intro j x hx
        rw [hpend] at hx
        cases hx
    · rw [Function.update_of_ne hi]
      exact ho.epochs i e₁ hsome
  · refine ho.unknown i ?_
    by_cases hi : i = active + 1
    · rw [hi, Function.update_self] at h
      cases h
    · rwa [Function.update_of_ne hi] at h
  · rw [Function.update_self] at h
    cases h
    rw [Function.update_self, hproc]
    exact (UInt64.add_zero count).symm
  · obtain ⟨rfl, -⟩ | ⟨-, hr₁⟩ := update_cases h₁
    · -- the new epoch is the last one
      have hlt := lt_next_epoch (UInt64.le_refl (active + 1)) hi
      obtain ⟨heq, -⟩ | ⟨-, hr₂⟩ := update_cases h₂
      · exact absurd heq (UInt64.ne_of_lt hlt).symm
      · have hle := UInt64.le_trans (hI.below _ _ hr₂)
          (UInt64.le_of_lt (lt_next_epoch (UInt64.le_refl active) hmax))
        exact absurd hle (UInt64.not_le.2 hlt)
    · rw [Function.update_of_ne (hold hr₁)]
      obtain ⟨heq, -⟩ | ⟨hne, hr₂⟩ := update_cases h₂
      · have hia : i = active := (UInt64.add_left_inj 1).1 heq
        subst hia
        rw [Function.update_self]
        exact ho.counted e₁ hr₁
      · rw [Function.update_of_ne hne]
        exact ho.chained i e₁ e₂ hr₁ hr₂ hi

end Ordered

omit [Keccak] in
/-- Computing the proofs again does not touch the numbers. -/
theorem refreshProofs_inputIndex (vouchersTree noticesTree : CompleteMerkleTree HashType)
    (l : List ProcessedInputType) :
    (refreshProofs vouchersTree noticesTree l).1.map ProcessedInputType.inputIndex =
      l.map ProcessedInputType.inputIndex := by
  induction l with
  | nil => rfl
  | cons i rest ih =>
      cases hv : vouchersTree.getProof (i.epochInputIndex <<< UInt64.ofNat log2KeccakSize)
          log2KeccakSize with
      | error what => simp only [refreshProofs, hv]
      | ok voucherProof =>
          cases hn : noticesTree.getProof (i.epochInputIndex <<< UInt64.ofNat log2KeccakSize)
              log2KeccakSize with
          | error what => simp only [refreshProofs, hv, hn, List.map_cons]
          | ok noticeProof => simp only [refreshProofs, hv, hn, List.map_cons, ih]

omit [Keccak] in
theorem finishedEpoch_order (e : EpochType) :
    (finishedEpoch e).1.processedInputs.map ProcessedInputType.inputIndex =
      e.processedInputs.map ProcessedInputType.inputIndex ∧
    (finishedEpoch e).1.processedInputs.length = e.processedInputs.length := by
  have hindex := refreshProofs_inputIndex e.vouchersTree e.noticesTree e.processedInputs
  refine ⟨hindex, ?_⟩
  have hlen := congrArg List.length hindex
  rwa [List.length_map, List.length_map] at hlen

/-- The order after a record step that deletes nothing. -/
theorem ordered_step {rpc : Rpc} {ph : Phase} {v v' : View} {start : UInt64 → UInt64}
    (hstep : RecordStep rpc ph v v') (hdelete : ph = .fresh → ∀ index, rpc ≠ .deleteEpoch index)
    (hI : EpochsOk v.records v.active v.notes) (hph : ph.Holds v)
    (ho : Ordered start v.records v.active v.count v.notes) :
    ∃ start', Ordered start' v'.records v'.active v'.count v'.notes := by
  cases hstep with
  | quiet hrec hactive hcount hmcycle hnotes =>
      rw [hrec, hactive, hcount, hnotes]
      exact ⟨start, ho⟩
  | tree hg hph' hrec hactive hcount hmcycle hnotes =>
      rw [hph'] at hph
      obtain ⟨rfl, -, e, he, hstate, hpend⟩ := hph
      obtain ⟨-, hpend', hproc'⟩ := treeChange_state hg e
      rw [hrec, hactive, hcount, hnotes, he, Option.map_some]
      refine ⟨start, ho.update hI he (fun _ _ => rfl) ?_ ?_⟩
      · exact (ho.epochs _ e he).congr (by rw [hproc']) hpend'
      · rw [hproc']
        exact ho.counted e he
  | @record index number stage e vt nt hash i hph' he hi hrec hactive hcount hnotes =>
      rw [hph'] at hph
      obtain ⟨rfl, hnumber, e', he', hstate, hpend⟩ := hph
      rw [he] at he'
      cases he'
      have hcounted := ho.counted e he
      rw [hrec, hactive, hcount, hnotes]
      refine ⟨start, ho.update hI he (fun _ _ => rfl) ?_ ?_⟩
      · exact (ho.epochs _ e he).record hpend ((hi.trans hnumber).trans hcounted)
      · show _ = _ + UInt64.ofNat (e.processedInputs ++ [i]).length
        rw [List.length_append, List.length_singleton, ofNat_succ, hcounted, UInt64.add_assoc]
  | @accept request e input hrpc hph' hlock htaint hindex he hstate hnumber hcurrent hinput hrec
      hactive hcount hmcycle hnotes =>
      have hcounted := ho.counted e he
      rw [hrec, hactive, hcount, hnotes]
      refine ⟨start, ho.update hI he (fun i hi => ?_) ?_ hcounted⟩
      · rw [acceptedRequests_accept, hindex, if_neg (Ne.symm hi), List.append_nil]
      · rw [acceptedRequests_accept, if_pos hindex]
        refine (ho.epochs _ e he).accept hinput ?_
        rw [hnumber, hcounted, UInt64.ofNat_add, UInt64.add_comm, UInt64.add_assoc]
  | delete hrpc hph' => exact absurd hrpc (hdelete hph' _)
  | @finish request e hrpc hready he hrec hactive hcount hmcycle hnotes =>
      obtain ⟨hstate, hpend, hmax⟩ := hready.facts he hph
      have hindex := hI.one _ _ he hstate
      rw [hrec, hactive, hcount, hindex]
      rw [hindex] at he
      obtain ⟨hindices, hlen⟩ := finishedEpoch_order e
      have hclosed : Ordered start
          (Function.update v.records v.active (some (finishedEpoch e).1)) v.active v.count
          v.notes := by
        refine ho.update hI he (fun _ _ => rfl) ((ho.epochs _ e he).congr hindices rfl) ?_
        rw [hlen]
        exact ho.counted e he
      have hclosedI : EpochsOk (Function.update v.records v.active (some (finishedEpoch e).1))
          v.active v.notes := hI.update he hstate fun _ => hpend
      have hnext : Ordered (Function.update start (v.active + 1) v.count)
          (startedRecords v.records v.active v.active e) (v.active + 1) v.count v.notes :=
        hclosed.next hclosedI hmax rfl rfl
      refine ⟨_, hnext.log fun i => ?_⟩
      obtain hsame | ⟨_, _, -, -, happ⟩ := hnotes
      · rw [hsame]
      · rw [happ]
        exact acceptedRequests_other (fun _ => Rpc.noConfusion) i
  | @spoil request e hrpc hready he hrec hactive hcount hmcycle hnotes =>
      obtain ⟨hstate, hpend, hmax⟩ := hready.facts he hph
      have hindex := hI.one _ _ he hstate
      rw [hrec, hactive, hcount, hnotes, hindex]
      rw [hindex] at he
      obtain ⟨hindices, hlen⟩ := finishedEpoch_order e
      refine ⟨start, ho.update hI he (fun _ _ => rfl) ((ho.epochs _ e he).congr hindices rfl) ?_⟩
      rw [hlen]
      exact ho.counted e he
  | missing he => exact absurd he hI.present

omit [Keccak] in
theorem ordered_fresh {v : View} {e : EpochType} (hv : FreshView v e) :
    Ordered (fun _ => v.count) v.records v.active v.count v.notes := by
  rw [hv.records, hv.notes]
  refine ⟨fun i e₁ h => ?_, fun _ _ => rfl, fun e₁ h => ?_, fun i e₁ e₂ h₁ h₂ hmax => ?_⟩
  · obtain ⟨-, hsome⟩ | ⟨-, hsome⟩ := update_cases h
    · cases hsome
      refine ⟨[], ?_, ?_, ?_⟩
      · show [] = List.map some e.pendingInputs
        rw [hv.pending]
        rfl
      · show e.processedInputs.map _ = []
        rw [hv.processed]
        rfl
      · intro j x hx
        have hx' : e.pendingInputs[j]? = some x := hx
        rw [hv.pending] at hx'
        cases hx'
    · cases hsome
  · rw [Function.update_self] at h
    cases h
    show v.count = v.count + UInt64.ofNat e.processedInputs.length
    rw [hv.processed]
    exact (UInt64.add_zero v.count).symm
  · obtain ⟨hi, -⟩ | ⟨-, hsome⟩ := update_cases h₁
    · obtain ⟨hi', -⟩ | ⟨-, hsome⟩ := update_cases h₂
      · have hlt := lt_next_epoch (UInt64.le_refl i) hmax
        rw [hi', hi] at hlt
        exact absurd hlt (UInt64.lt_irrefl _)
      · cases hsome
    · cases hsome

/-! ### Runs -/

/-- AdvanceState, InspectState, the two reports, FinishEpoch without a storage
    directory, and CheckIn. -/
def OrderRpc : Rpc → Bool
  | .advanceState _ | .inspectState _ | .getSessionStatus | .getEpochStatus _ | .checkIn _ => true
  | .finishEpoch request => decide (request.storageDirectory = "")
  | _ => false

/-- The order of the inputs, with nobody in the store call. -/
structure OrderInv (φ : HandlerId → Option Phase) (v : View) : Prop where
  work : WorkInv φ v
  unstored : ∀ k j, φ k ≠ some (.storing j)
  ordered : ∃ start, Ordered start v.records v.active v.count v.notes

theorem turn_order {w : Manager} {φ φ' : HandlerId → Option Phase} {e : Event}
    {i : HandlerId} {rpc : Rpc} {ph : Phase} {v₀ v' : View} {t : Option Phase}
    (honly : e.only OrderRpc) (ha : sessionProtocol.Abides w φ)
    (hturn : Turn w φ e i rpc ph v₀ t φ' v') (hI : OrderInv φ (View.of w.shared)) :
    OrderInv φ' v' := by
  have hrpc : ph = .fresh → OrderRpc rpc = true ∨ ∃ a, rpc = .checkinDeadline a :=
    hturn.enters.only ha honly
  refine ⟨turn_work hturn hI.work fun k _ j hφ => absurd hφ (hI.unstored k j), ?_, ?_⟩
  · refine turn_unstored hturn (fun hph request hreq => ?_) hI.unstored
    rcases hrpc hph with hallowed | ⟨a, ha⟩
    · rw [hreq] at hallowed
      exact of_decide_eq_true hallowed
    · rw [hreq] at ha
      cases ha
  · obtain ⟨hv₀, hph⟩ := hI.work.enter hturn.enters
    obtain ⟨start, ho⟩ := hI.ordered
    rw [← hturn.enters.records, ← hturn.enters.active, ← hturn.enters.count,
      ← hturn.enters.notes] at ho
    refine ordered_step (trans_records hturn.trans) (fun hfresh index hdel => ?_) hv₀.epochs hph ho
    obtain hallowed | ⟨a, ha⟩ := hrpc hfresh
    · rw [hdel] at hallowed
      cases hallowed
    · rw [hdel] at ha
      cases ha

/-- Inputs are processed once, in the order of acceptance, under the right
    index. -/
structure InputsOrdered (w : Manager) : Prop where
  /-- The requests answered OK for an epoch are, one to one and in order, the
      inputs processed in it and then those pending. What was processed was
      recorded under the index it was accepted with. -/
  accepted : ∀ i e, epochOf w i = some e → ∃ processed : List InputType,
    (acceptedRequests w.shared.sent i).map requestInput =
      (processed ++ e.pendingInputs).map some ∧
    e.processedInputs.map ProcessedInputType.inputIndex =
      processed.map fun input => input.metadata.inputIndex
  /-- Nothing was accepted for an epoch that is not there. -/
  unknown : ∀ i, epochOf w i = none → acceptedRequests w.shared.sent i = []
  drained : ∀ i e, epochOf w i = some e → i ≠ activeEpoch w → e.pendingInputs = []
  pending : ∀ e, epochOf w (activeEpoch w) = some e → ∀ j input, e.pendingInputs[j]? = some input →
    input.metadata.inputIndex = processedCount w + UInt64.ofNat j
  /-- The indices recorded in an epoch are consecutive, and go on where the epoch
      before it ended. -/
  consecutive : ∃ start : UInt64 → UInt64,
    (∀ i e, epochOf w i = some e → ∀ j p, e.processedInputs[j]? = some p →
      p.inputIndex = start i + UInt64.ofNat j) ∧
    (∀ i e e', epochOf w i = some e → epochOf w (i + 1) = some e' → i ≠ 0xFFFFFFFFFFFFFFFF →
      start (i + 1) = start i + UInt64.ofNat e.processedInputs.length)

theorem inputsOrdered_of {w : Manager} (hgood : Good OrderInv w) : InputsOrdered w := by
  obtain ⟨φ, ha, hI⟩ := hgood
  obtain ⟨start, ho⟩ := hI.ordered
  have hlog : ∀ i, acceptedRequests w.shared.sent i =
      acceptedRequests (View.of w.shared).notes i := by
    intro i
    rw [acceptedRequests_notes, view_of_sent]
  have hepoch : ∀ {i e}, epochOf w i = some e →
      EpochOrdered (start i) (acceptedRequests w.shared.sent i) e := by
    intro i e he
    rw [hlog]
    exact (ho.epochs i _ (epochOf_records he)).congr rfl rfl
  refine ⟨fun i e he => ?_, fun i hi => ?_, fun i e he hne => ?_, fun e he j input hj => ?_,
    start, fun i e he j p hj => ?_, fun i e e' he he' hmax => ?_⟩
  · obtain ⟨processed, hreq, hindex, -⟩ := hepoch he
    exact ⟨processed, hreq, hindex⟩
  · rw [hlog]
    refine ho.unknown i ?_
    rw [epochOf_eq] at hi
    unfold View.records
    rw [hi]
    rfl
  · rw [activeEpoch_eq] at hne
    by_contra hpend
    exact hne (hI.work.epochs.open_of_pending (epochOf_records he) hpend).1
  · obtain ⟨processed, -, hindex, hnum⟩ := hepoch he
    have hlen : processed.length = e.processedInputs.length := by
      have := congrArg List.length hindex
      rwa [List.length_map, List.length_map, eq_comm] at this
    have hat : (processed ++ e.pendingInputs)[processed.length + j]? = some input := by
      rw [List.getElem?_append_right (Nat.le_add_right ..), Nat.add_sub_cancel_left]
      exact hj
    rw [activeEpoch_eq] at he hnum
    rw [hnum _ _ hat, processedCount_eq, ho.counted _ (epochOf_records he), UInt64.ofNat_add, hlen,
      UInt64.add_assoc]
    rfl
  · obtain ⟨processed, -, hindex, hnum⟩ := hepoch he
    have hj' := congrArg (·[j]?) hindex
    simp only [List.getElem?_map, hj, Option.map_some] at hj'
    obtain ⟨input, hinput, heq⟩ := Option.map_eq_some_iff.1 hj'.symm
    rw [← heq]
    refine hnum j input ?_
    rw [List.getElem?_append_left (List.getElem?_eq_some_iff.1 hinput).1]
    exact hinput
  · have hchained := ho.chained i _ _ (epochOf_records he) (epochOf_records he') hmax
    exact hchained

/-- Every input is processed exactly once and in order. -/
theorem inputs_ordered {hctx : HandlerContext} {session : SessionType}
    (hfresh : FreshSession hctx session) {w : Manager}
    (hrun : Runs step (fun _ e _ => e.only OrderRpc) (idle hctx) w) (hw : w.halted = none) :
    InputsOrdered w := by
  obtain ⟨e₀, hv⟩ := freshView_of hfresh
  have h₀ : Good OrderInv (idle hctx) := by
    refine good_idle ⟨session, hfresh.entry⟩ ⟨workInv_fresh hv, fun k j h => ?_, _, ordered_fresh hv⟩
    cases h
  refine inputsOrdered_of (runs_good hrun (fun _ e _ hc => ?_) h₀ ?_ hw)
  · cases e with
    | arrive rpc peer fuel env => cases rpc <;> first | rfl | cases hc
    | _ => rfl
  · intro w w' φ φ' e i rpc ph v₀ t hc ha ha' hI hturn
    exact turn_order hc ha hturn hI

end ServerManager

/-! ### On the sample session -/

namespace ServerManager

open Coroutine

attribute [local instance] keccak256

/-- The first input is processed, and the second one waits. -/
theorem inputs_ordered_sample : ∃ w,
    Runs step (fun _ e _ => e.only OrderRpc) (idle sampleContext) w ∧
      (epochOf w 0).any (fun e => e.processedInputs.length == 1 && e.pendingInputs.length == 1) ∧
      InputsOrdered w := by
  obtain ⟨w, hrun, hw⟩ : ∃ w, Runs step (fun _ e _ => e.only OrderRpc) (idle sampleContext) w ∧
      (w.halted.isNone && (epochOf w 0).any fun e =>
        e.processedInputs.length == 1 && e.pendingInputs.length == 1) = true :=
    exists_run (fun _ e _ => e.only OrderRpc)
      [.request (.advanceState (sampleRequest 0)), .answered 0, .answered 0, .checkIn, .answered 1,
        .request (.advanceState (sampleRequest 1)), .answered 0, .checkIn, .answered 3, .answered 0]
      (fun _ _ _ h => h) (by decide +kernel)
  rw [Bool.and_eq_true, Option.isNone_iff_eq_none] at hw
  exact ⟨w, hrun, hw.2, inputs_ordered freshSession_sample hrun hw.1⟩

end ServerManager
