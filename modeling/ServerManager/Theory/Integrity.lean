import ServerManager.Theory.Frozen
import ServerManager.Theory.Messages
import ServerManager.Theory.Sequences

/-!
# The Representation of a Session

What a session looks like between two requests, as long as it is not tainted, with
nothing of the bookkeeping in it: which epochs there are, what is in their trees,
and where the machine hash of each comes from. It holds in every run in which one
request has been dealt with before the next one comes, whatever the machine server
answers; only for the leaves of accepted inputs to be told from those of skipped
ones it must not report the hash of zeros for a memory range.

## Main definitions

* `EpochIntact`, `SessionIntact`: The representation.
* `OrderlyRun`: One request after the other, and no target hash is zero.

## Theorems

* `sessionIntact_of_kept`: What the books say about the representation.
* `session_intact`: The representation between any two requests, and the index of
  the active epoch over the run.
-/

namespace ServerManager

open Coroutine

variable [Keccak]

/-- Leaf `k` of a tree of an epoch. -/
def leafHash (tree : CompleteMerkleTree HashType) (k : Nat) : Except String HashType :=
  tree.getNodeHash (leafAddress k log2KeccakSize) log2KeccakSize

/-- The leaf of input `i` in a tree: zero if it was skipped, and if it was accepted
    the target hash of the proof that was recorded for it. -/
structure LeafIntact (tree : CompleteMerkleTree HashType) (k : Nat) (i : ProcessedInputType)
    (proof : AcceptedDataType → ProofType) : Prop where
  zero : leafHash tree k = .ok zeroHash ↔ i.status ≠ .accepted
  target : i.status = .accepted →
    ∃ data, i.processed = .accepted data ∧ leafHash tree k = .ok (proof data).targetHash

/-- An epoch: each tree has one leaf for each processed input, the inputs are
    numbered from zero on, every output has its hash, and the hash of the epoch is
    that of the last input. -/
structure EpochIntact (e : EpochType) : Prop where
  vouchersSize : e.vouchersTree.size = e.processedInputs.length
  noticesSize : e.noticesTree.size = e.processedInputs.length
  position : ∀ (k : Nat) (i : ProcessedInputType), e.processedInputs[k]? = some i →
    i.epochInputIndex.toNat = k
  vouchersLeaf : ∀ (k : Nat) (i : ProcessedInputType), e.processedInputs[k]? = some i →
    LeafIntact e.vouchersTree k i AcceptedDataType.voucherHashesInMachine
  noticesLeaf : ∀ (k : Nat) (i : ProcessedInputType), e.processedInputs[k]? = some i →
    LeafIntact e.noticesTree k i AcceptedDataType.noticeHashesInMachine
  hashes : ∀ i ∈ e.processedInputs, ∀ data, i.processed = .accepted data →
    (∀ voucher ∈ data.vouchers, voucher.hash.isSome) ∧ ∀ notice ∈ data.notices, notice.hash.isSome
  machineHash : ∀ i, e.processedInputs.getLast? = some i →
    e.mostRecentMachineHash = i.mostRecentMachineHash

/-- A session: exactly one epoch is active, the one under the active index. The
    others have smaller indices, are finished and have no pending input. -/
structure SessionIntact (x : SessionType) : Prop where
  active : ∀ index e, x.epochs.lookup index = some e →
    (e.state = .active ↔ index = x.activeEpochIndex)
  present : ∃ e, x.epochs.lookup x.activeEpochIndex = some e
  others : ∀ index e, x.epochs.lookup index = some e → index ≠ x.activeEpochIndex →
    index < x.activeEpochIndex ∧ e.state = .finished ∧ e.pendingInputs = []
  keys : ∀ index e, x.epochs.lookup index = some e → e.epochIndex = index
  epochs : ∀ index e, x.epochs.lookup index = some e → EpochIntact e
  carried : ∀ e e', x.epochs.lookup x.activeEpochIndex = some e → e.processedInputs = [] →
    x.epochs.lookup (x.activeEpochIndex - 1) = some e' →
      e.mostRecentMachineHash = e'.mostRecentMachineHash

/-- A reply is not a proof for a target of zeros. -/
def hasTarget : (op : Op) → op.Reply → Bool
  | .call (.getProof _ _), reply => reply.body.targetHash ≠ zeroHash.1
  | _, _ => true

/-- No proof is reported for a target of zeros. -/
def NoZeroTarget (w : Manager) : Event → Prop
  | .complete h reply _ => (w.handlers h).all (fun p => hasTarget p.op (reply p.op)) = true
  | _ => True

instance (w : Manager) (e : Event) : Decidable (NoZeroTarget w e) :=
  match e with
  | .complete h reply _ =>
    inferInstanceAs (Decidable ((w.handlers h).all (fun p => hasTarget p.op (reply p.op)) = true))
  | .arrive .. | .dequeue .. | .fire _ | .alarm .. | .completeStale _ => isTrue trivial

/-- One request after the other, whatever is answered but a target of zeros. -/
def OrderlyRun : Manager → Manager → Prop :=
  Runs step fun w e _ => OneByOne w e ∧ NoZeroTarget w e

/-! ### The books -/

/-- A server that reports no target of zeros. -/
def zeroless : Server where
  State := Unit
  Answers c _ r _ := hasTarget (.call c) r = true

omit [Keccak] in
theorem servedBy_zeroless {w : Manager} {e : Event} (he : NoZeroTarget w e) :
    ServedBy zeroless w e () () := by
  cases e with
  | complete h reply env =>
      intro p hp
      have htarget : (w.handlers h).all (fun p => hasTarget p.op (reply p.op)) = true := he
      rw [hp, Option.all_some] at htarget
      cases p with
      | mk tag op k =>
          cases htag : tag.aide with
          | true => exact rfl
          | false =>
              show zeroless.Replies op () (reply op) ()
              cases op with
              | call c => exact Or.inl htarget
              | _ => exact rfl
  | _ => exact rfl

/-- The proof of a memory range of an accepted input. -/
theorem collected_target {range : MemoryRangeDescriptionType} {m m' : Unit} {proof : ProofType}
    {keccaks : List KeccakType} (h : Collected zeroless range m proof keccaks m') :
    proof.targetHash ≠ zeroHash := by
  rcases h.range with ⟨m₁, m₂, message, hashes, ⟨r, hr, -, rfl⟩, hproof, -⟩
  have hdecodes := decodes_of_ok hproof
  rcases hr with hanswer | ⟨rfl, -⟩
  · have hne : r.body.targetHash ≠ zeroHash.1 := of_decide_eq_true hanswer
    exact fun hzero => hne (by rw [← hdecodes.targetHash, hzero])
  · -- a message without content is not a proof
    have hpos := (checks_of_ok hproof).2.2.1
    cases hpos

section Books

variable {sound : HashType → AcceptedDataType → Prop} {e : EpochType}

/-- The leaves of a tree. -/
theorem leafIntact_of_kept {tree : CompleteMerkleTree HashType} {k : Nat} {i : ProcessedInputType}
    {leaf : ProcessedInputType → HashType} {proof : AcceptedDataType → ProofType}
    (hrep : Represents hasherType epochSizes tree (e.processedInputs.map leaf))
    (hi : e.processedInputs[k]? = some i)
    (hstatus : i.status = .accepted ↔ ∃ data, i.processed = .accepted data)
    (hskipped : ∀ data, i.processed = .exception data → leaf i = zeroHash)
    (haccepted : ∀ data, i.processed = .accepted data →
      leaf i = (proof data).targetHash ∧ (proof data).targetHash ≠ zeroHash) :
    LeafIntact tree k i proof := by
  have hlt : k < e.processedInputs.length := (List.getElem?_eq_some_iff.1 hi).1
  have hroom := hrep.room
  rw [List.length_map] at hroom
  have hleaf : leafHash tree k = .ok (leaf i) :=
    hrep.stores.getNodeHash_leaf (z := epochSizes) (by omega) (by rw [List.getElem?_map, hi]; rfl)
  cases hprocessed : i.processed with
  | accepted data =>
      rcases haccepted data hprocessed with ⟨hsame, hne⟩
      have hok : i.status = .accepted := hstatus.2 ⟨data, hprocessed⟩
      refine ⟨iff_of_false ?_ (not_not_intro hok), fun _ => ⟨data, hprocessed, by rw [hleaf, hsame]⟩⟩
      rw [hleaf, hsame, Except.ok.injEq]
      exact hne
  | exception data =>
      have hnot : i.status ≠ .accepted := by
        intro hok
        rcases hstatus.1 hok with ⟨data', hdata'⟩
        rw [hprocessed] at hdata'
        cases hdata'
      exact ⟨iff_of_true (by rw [hleaf, hskipped data hprocessed]) hnot, fun hok => absurd hok hnot⟩

/-- What the books of an epoch say about its representation. -/
theorem epochIntact_of_kept (he : EpochKept sound e) (hsound : ∀ hash data, sound hash data →
    data.voucherHashesInMachine.targetHash ≠ zeroHash ∧
    data.noticeHashesInMachine.targetHash ≠ zeroHash) : EpochIntact e := by
  have hroom := he.vouchersTree.room
  rw [List.length_map] at hroom
  refine ⟨?_, ?_, fun k i hi => ?_, fun k i hi => ?_, fun k i hi => ?_, fun i hi data hdata => ?_,
    he.hash⟩
  · rw [he.vouchersTree.stores.size_eq, List.length_map]
  · rw [he.noticesTree.stores.size_eq, List.length_map]
  · -- there is no room for more inputs than an index can count
    have hlt : k < e.processedInputs.length := (List.getElem?_eq_some_iff.1 hi).1
    have hcapacity : epochSizes.capacity = 2 ^ 32 := rfl
    rw [(he.recorded k i hi).position, UInt64.toNat_ofNat']
    omega
  · refine leafIntact_of_kept he.vouchersTree hi (he.recorded k i hi).status ?_ ?_
    · intro data hdata
      rw [voucherLeaf, hdata]
    · intro data hdata
      exact ⟨by rw [voucherLeaf, hdata], (hsound _ _ ((he.recorded k i hi).sound data hdata)).1⟩
  · refine leafIntact_of_kept he.noticesTree hi (he.recorded k i hi).status ?_ ?_
    · intro data hdata
      rw [noticeLeaf, hdata]
    · intro data hdata
      exact ⟨by rw [noticeLeaf, hdata], (hsound _ _ ((he.recorded k i hi).sound data hdata)).2⟩
  · rcases List.getElem?_of_mem hi with ⟨k, hk⟩
    exact ⟨(he.recorded k i hk).vouchers data hdata, (he.recorded k i hk).notices data hdata⟩

end Books

/-- What the books of a session say about its representation. -/
theorem sessionIntact_of_kept {x : SessionType} (hx : SessionKept (Gathered zeroless) x) :
    SessionIntact x := by
  have htargets : ∀ hash data, Gathered zeroless x.memoryRange hash data →
      data.voucherHashesInMachine.targetHash ≠ zeroHash ∧
      data.noticeHashesInMachine.targetHash ≠ zeroHash := by
    rintro hash data ⟨m, m₁, m₂, m₃, bytes, vouchers, notices, hvouchers, -, hnotices, -⟩
    exact ⟨collected_target hvouchers, collected_target hnotices⟩
  rcases hx.active with ⟨e₀, he₀, hactive⟩
  refine ⟨fun index e he => ⟨fun hstate => ?_, ?_⟩, ⟨e₀, he₀⟩, hx.closed, hx.index,
    fun index e he => epochIntact_of_kept (hx.kept index e he) htargets, hx.carried⟩
  · by_contra hne
    have hfinished := (hx.closed index e he hne).2.1
    rw [hstate] at hfinished
    cases hfinished
  · rintro rfl
    rw [he₀] at he
    cases he
    exact hactive

/-! ### Runs -/

section Run

variable {hctx : HandlerContext} {w w' : Manager} {base : Own}

/-- The invariant of an orderly run. -/
theorem dealing_orderly (h : Dealing zeroless base w ()) (hrun : OrderlyRun w w') :
    Dealing zeroless base w' () :=
  runs_invariant (I := fun w => Dealing zeroless base w ()) hrun h
    fun _ _ _ h hstep hc => h.next hstep hc.1 (servedBy_zeroless hc.2)

omit [Keccak] in
/-- The session itself, without the address of its server in `own`. -/
theorem own_found {s : HandlerContext} {ref : Nat} {x : SessionType}
    (hx : s.session = some (ref, x)) : (own s).session = some (ref, x.placed "") := by
  simp [own, hx]

/-- Between two requests, as long as it is not tainted, the session is intact: one
    epoch is active, the others are before it and closed, and the trees of each have
    one leaf for each of its inputs. The index of the active epoch never decreases. -/
theorem session_intact (hblank : Blank hctx) (hwaiting : hctx.waitingCheckin = none)
    (hrun : OrderlyRun (idle hctx) w) (hrest : AtRest w) (hrunning : w.halted = none)
    {ref : Nat} {x : SessionType} (hx : w.shared.session = some (ref, x)) :
    (x.tainted = false → SessionIntact x) ∧
    ∀ w' x', OrderlyRun w w' → AtRest w' → w'.halted = none →
      w'.shared.session = some (ref, x') → x.activeEpochIndex ≤ x'.activeEpochIndex := by
  have hdealing := dealing_orderly (dealing_idle hblank hwaiting) hrun
  have horder := (hdealing.atRest hrest hrunning).1
  refine ⟨fun htaint => ?_, fun w' x' hrun' hrest' hrunning' hx' => ?_⟩
  · have hbooks := horder.books ref _ (own_found hx) htaint
    exact sessionIntact_of_kept (hbooks.congr rfl rfl rfl)
  · -- from here on the session is compared with what it is now
    have hlater := ((dealing_orderly (hdealing.rebase hrest) hrun').atRest hrest' hrunning').2
    rcases hlater.session ref _ (own_found hx') with hnew | ⟨y, hy, hle⟩
    · exact absurd (horder.fresh ref _ (own_found hx)) (Nat.not_lt_of_le hnew)
    · rw [own_found hx] at hy
      cases hy
      exact hle

end Run

end ServerManager

/-! ### On the sample -/

namespace ServerManager

open Coroutine

attribute [local instance] keccak256

/-- StartSession, and an input that is too long and skipped. -/
def skippingEvents : List Event :=
  startEvents ++ [.request (.advanceState (sampleRequest 0)), .answered 2, .answered 2, .checkIn,
    .answered 3, .answered 2, .checkIn, .answered 4, .answered 2]

/-- The requests are dealt with, and the session is not tainted. -/
def settledIn (index : UInt64) (w : Manager) : Bool :=
  decide (AtRest w) && (w.halted.isNone && w.shared.session.any fun s =>
    s.1 == 0 && (!s.2.tainted && s.2.activeEpochIndex == index))

theorem settledIn_spec {index : UInt64} {w : Manager} (hw : settledIn index w = true) :
    AtRest w ∧ w.halted = none ∧ ∃ x, w.shared.session = some (0, x) ∧ x.tainted = false ∧
      x.activeEpochIndex = index := by
  simp only [settledIn, Bool.and_eq_true, decide_eq_true_eq, Option.isNone_iff_eq_none,
    Option.any_eq_true, beq_iff_eq, Bool.not_eq_true'] at hw
  rcases hw with ⟨hrest, hrunning, ⟨n, x⟩, hx, hn, htaint, hindex⟩
  cases hn
  exact ⟨hrest, hrunning, x, hx, htaint, hindex⟩

/-- An input is skipped in epoch 0, and then the epoch is finished. -/
theorem session_intact_sample : ∃ w w' x x', OrderlyRun (idle emptyContext) w ∧ OrderlyRun w w' ∧
    w.shared.session = some (0, x) ∧ w'.shared.session = some (0, x') ∧ x.activeEpochIndex = 0 ∧
    x'.activeEpochIndex = 1 ∧ SessionIntact x ∧ SessionIntact x' ∧
    x.activeEpochIndex ≤ x'.activeEpochIndex := by
  have hplay : ∃ w, OrderlyRun (idle emptyContext) w ∧ (settledIn 0 w &&
      (play step (fun w e _ => decide (OneByOne w e ∧ NoZeroTarget w e)) w
        [.request (sampleFinish 1 ""), .answered 5]).any (settledIn 1)) = true :=
    exists_run (fun w e _ => decide (OneByOne w e ∧ NoZeroTarget w e)) skippingEvents
      (fun _ _ _ h => of_decide_eq_true h) (by decide +kernel)
  rcases hplay with ⟨w, hrun, hw⟩
  rw [Bool.and_eq_true] at hw
  rcases exists_run (C := fun w e _ => OneByOne w e ∧ NoZeroTarget w e) _ _
    (fun _ _ _ h => of_decide_eq_true h) hw.2 with ⟨w', hlater, hw'⟩
  rcases settledIn_spec hw.1 with ⟨hrest, hrunning, x, hx, htaint, hindex⟩
  rcases settledIn_spec hw' with ⟨hrest', hrunning', x', hx', htaint', hindex'⟩
  have hintact := session_intact blank_empty rfl hrun hrest hrunning hx
  have hintact' := session_intact blank_empty rfl (runs_trans hrun hlater) hrest' hrunning' hx'
  exact ⟨w, w', x, x', hrun, hlater, hx, hx', hindex, hindex', hintact.1 htaint,
    hintact'.1 htaint', hintact.2 w' x' hlater hrest' hrunning' hx'⟩

end ServerManager
