import ServerManager.Core.Handlers
import ServerManager.Merkle.Updates
import ServerManager.Theory.Ranges

/-!
# The Books of a Session

What the epochs of a session are supposed to look like whenever no request is at
work on it. In an epoch the two trees have one leaf for each processed input: the
hash of the outputs of an input that was accepted, and zero for one that was
skipped. Of the epochs of a session the active one is the last, and the others
are closed.

The records of an accepted input are left open: `Sound` is whatever is known of
them, given the memory ranges of the session and the machine hash after the
input. The lemmas here are about the data alone and say that each thing a handler
does to an epoch, or to the epochs of a session, keeps the books in order.

## Main definitions

* `epochSizes`: The sizes of the trees of an epoch.
* `voucherLeaf`, `noticeLeaf`: The leaves that belong to an input.
* `Recorded`: An input is recorded in its place.
* `EpochKept`, `SessionKept`: The books are in order.

## Theorems

* `EpochKept.record`: An input is added.
* `EpochKept.finish`: The epoch is finished, and the proofs are asked for again.
* `SessionKept.setActive`, `SessionKept.newEpoch`, `SessionKept.erase`: The epochs
  of a session.
-/

namespace ServerManager

variable [Keccak]

/-- What is known of the records of an accepted input. -/
abbrev Soundness := MemoryRangesType → HashType → AcceptedDataType → Prop

/-- The sizes of the trees of an epoch. -/
def epochSizes : TreeSizes where
  root := log2RootSize
  leaf := log2KeccakSize
  word := log2KeccakSize
  wordLe := Nat.le_refl _
  leafLe := by decide
  rootLt := by decide

/-- The leaf of an input in the tree of the vouchers. -/
def voucherLeaf (i : ProcessedInputType) : HashType :=
  match i.processed with
  | .accepted data => data.voucherHashesInMachine.targetHash
  | .exception _ => zeroHash

/-- The leaf of an input in the tree of the notices. -/
def noticeLeaf (i : ProcessedInputType) : HashType :=
  match i.processed with
  | .accepted data => data.noticeHashesInMachine.targetHash
  | .exception _ => zeroHash

/-- An input is recorded at position `k`. -/
structure Recorded (sound : HashType → AcceptedDataType → Prop) (k : Nat)
    (i : ProcessedInputType) : Prop where
  position : i.epochInputIndex = UInt64.ofNat k
  status : i.status = .accepted ↔ ∃ data, i.processed = .accepted data
  vouchers : ∀ data, i.processed = .accepted data → ∀ o ∈ data.vouchers, o.hash.isSome
  notices : ∀ data, i.processed = .accepted data → ∀ o ∈ data.notices, o.hash.isSome
  sound : ∀ data, i.processed = .accepted data → sound i.mostRecentMachineHash data

/-- The books of an epoch: its trees have the leaves of its inputs, each input is
    recorded in its place, and the hash of the epoch is that of the last input. -/
structure EpochKept (sound : HashType → AcceptedDataType → Prop) (e : EpochType) : Prop where
  vouchersTree : Represents hasherType epochSizes e.vouchersTree (e.processedInputs.map voucherLeaf)
  noticesTree : Represents hasherType epochSizes e.noticesTree (e.processedInputs.map noticeLeaf)
  recorded : ∀ k i, e.processedInputs[k]? = some i → Recorded sound k i
  hash : ∀ i, e.processedInputs.getLast? = some i →
    e.mostRecentMachineHash = i.mostRecentMachineHash

/-- A memory range is as `check_memory_range_config` made it. -/
structure RangeKept (range : MemoryRangeDescriptionType) : Prop extends CheckedRange range where
  log2Size : range.log2Size = ilog2 range.length

/-- The books of a session: one of its epochs is active, the others are before it
    and closed, and each is filed under its index. Until there is an input, the hash
    of the active epoch is that of the one before it. -/
structure SessionKept (sound : Soundness) (x : SessionType) : Prop where
  active : ∃ e, x.epochs.lookup x.activeEpochIndex = some e ∧ e.state = .active
  index : ∀ index e, x.epochs.lookup index = some e → e.epochIndex = index
  kept : ∀ index e, x.epochs.lookup index = some e → EpochKept (sound x.memoryRange) e
  closed : ∀ index e, x.epochs.lookup index = some e → index ≠ x.activeEpochIndex →
    index < x.activeEpochIndex ∧ e.state = .finished ∧ e.pendingInputs = []
  carried : ∀ e e', x.epochs.lookup x.activeEpochIndex = some e → e.processedInputs = [] →
    x.epochs.lookup (x.activeEpochIndex - 1) = some e' →
      e.mostRecentMachineHash = e'.mostRecentMachineHash
  voucherHashes : RangeKept x.memoryRange.voucherHashes
  noticeHashes : RangeKept x.memoryRange.noticeHashes

/-! ### An epoch -/

section Epoch

variable {sound : HashType → AcceptedDataType → Prop} {e e' : EpochType}

omit [Keccak] in
/-- A push that returns appends the leaf. -/
theorem Represents.pushed {Hash : Type} [Inhabited Hash] {H : Hasher Hash} {z : TreeSizes}
    {t t' : CompleteMerkleTree Hash} {leaves : List Hash} {hash : Hash}
    (hrep : Represents H z t leaves) (hpush : t.pushBack H hash = .ok t') :
    Represents H z t' (leaves ++ [hash]) := by
  by_cases hroom : leaves.length < z.capacity
  · rcases hrep.pushBack hash hroom with ⟨t₁, ht₁, hrep₁⟩
    rw [hpush] at ht₁
    cases ht₁
    exact hrep₁
  · have hfull : leaves.length = z.capacity := by
      have := hrep.room
      omega
    rw [hrep.pushBack_full hash hfull] at hpush
    cases hpush

/-- The new epoch has no leaf and no input. -/
theorem epochKept_new (index : UInt64) (hash : HashType) :
    EpochKept sound { EpochType.new with epochIndex := index, mostRecentMachineHash := hash } := by
  refine ⟨represents_empty _ epochSizes, represents_empty _ epochSizes, ?_, ?_⟩
  · intro k i hi
    simp [EpochType.new] at hi
  · intro i hi
    simp [EpochType.new] at hi

/-- What is not in the books does not matter. -/
theorem EpochKept.congr (he : EpochKept sound e) (hvouchers : e'.vouchersTree = e.vouchersTree)
    (hnotices : e'.noticesTree = e.noticesTree) (hinputs : e'.processedInputs = e.processedInputs)
    (hhash : e'.mostRecentMachineHash = e.mostRecentMachineHash) : EpochKept sound e' := by
  refine ⟨?_, ?_, ?_, ?_⟩
  · rw [hvouchers, hinputs]
    exact he.vouchersTree
  · rw [hnotices, hinputs]
    exact he.noticesTree
  · rw [hinputs]
    exact he.recorded
  · rw [hinputs, hhash]
    exact he.hash

/-- An input is recorded. -/
theorem EpochKept.record (he : EpochKept sound e) {i : ProcessedInputType}
    {vouchersTree noticesTree : CompleteMerkleTree HashType}
    (hvouchers : e.vouchersTree.pushBack hasherType (voucherLeaf i) = .ok vouchersTree)
    (hnotices : e.noticesTree.pushBack hasherType (noticeLeaf i) = .ok noticesTree)
    (hi : Recorded sound e.processedInputs.length i)
    (htrees : e'.vouchersTree = vouchersTree ∧ e'.noticesTree = noticesTree)
    (hinputs : e'.processedInputs = e.processedInputs ++ [i])
    (hhash : e'.mostRecentMachineHash = i.mostRecentMachineHash) : EpochKept sound e' := by
  refine ⟨?_, ?_, fun k j hj => ?_, fun j hj => ?_⟩
  · rw [htrees.1, hinputs, List.map_append]
    exact he.vouchersTree.pushed hvouchers
  · rw [htrees.2, hinputs, List.map_append]
    exact he.noticesTree.pushed hnotices
  · rw [hinputs] at hj
    by_cases hk : k < e.processedInputs.length
    · rw [List.getElem?_append_left hk] at hj
      exact he.recorded k j hj
    · -- past the inputs there were, only the new one is left
      rw [List.getElem?_append_right (by omega), List.getElem?_singleton] at hj
      by_cases hlast : k - e.processedInputs.length = 0
      · simp only [hlast, if_true, Option.some.injEq] at hj
        have hk' : k = e.processedInputs.length := by omega
        subst hj hk'
        exact hi
      · simp [hlast] at hj
  · rw [hinputs, List.getLast?_append] at hj
    simp at hj
    rw [hhash, hj]

/-! #### Finishing -/

/-- The proofs an input carries in the trees of its epoch. -/
def ProcessedInputType.refreshed (i : ProcessedInputType) (p q : ProofType) : ProcessedInputType :=
  { i with voucherHashesInEpoch := p, noticeHashesInEpoch := q }

omit [Keccak] in
/-- The loop of `finish_epoch` goes to the end when every proof is there. -/
theorem refreshProofs_ok {vouchersTree noticesTree : CompleteMerkleTree HashType}
    {inputs : List ProcessedInputType} (hproofs : ∀ i ∈ inputs,
      (∃ p, vouchersTree.getProof (i.epochInputIndex <<< UInt64.ofNat log2KeccakSize)
        log2KeccakSize = .ok p) ∧
      ∃ q, noticesTree.getProof (i.epochInputIndex <<< UInt64.ofNat log2KeccakSize)
        log2KeccakSize = .ok q) :
    ∃ inputs' : List ProcessedInputType,
      refreshProofs vouchersTree noticesTree inputs = (inputs', none) ∧
      inputs'.length = inputs.length ∧
      ∀ (k : Nat) (i' : ProcessedInputType), inputs'[k]? = some i' →
        ∃ (i : ProcessedInputType) (p q : ProofType), inputs[k]? = some i ∧ i' = i.refreshed p q ∧
          vouchersTree.getProof (i.epochInputIndex <<< UInt64.ofNat log2KeccakSize)
            log2KeccakSize = .ok p ∧
          noticesTree.getProof (i.epochInputIndex <<< UInt64.ofNat log2KeccakSize)
            log2KeccakSize = .ok q := by
  induction inputs with
  | nil => exact ⟨[], rfl, rfl, fun k i' hi' => by simp at hi'⟩
  | cons i rest ih =>
      rcases hproofs i List.mem_cons_self with ⟨⟨p, hp⟩, q, hq⟩
      rcases ih fun j hj => hproofs j (List.mem_cons_of_mem _ hj) with ⟨rest', hrest, hlen, hall⟩
      refine ⟨i.refreshed p q :: rest', ?_, by simp [hlen], fun k i' hi' => ?_⟩
      · simp only [refreshProofs, hp, hq, hrest]
        rfl
      · cases k with
        | zero =>
            simp only [List.getElem?_cons_zero, Option.some.injEq] at hi'
            exact ⟨i, p, q, rfl, hi'.symm, hp, hq⟩
        | succ k => exact hall k i' hi'

/-- The position of an input of an epoch has a proof in each tree. -/
theorem EpochKept.proofs (he : EpochKept sound e) {i : ProcessedInputType}
    (hi : i ∈ e.processedInputs) :
    (∃ p, e.vouchersTree.getProof (i.epochInputIndex <<< UInt64.ofNat log2KeccakSize)
        log2KeccakSize = .ok p) ∧
      ∃ q, e.noticesTree.getProof (i.epochInputIndex <<< UInt64.ofNat log2KeccakSize)
        log2KeccakSize = .ok q := by
  rcases List.getElem?_of_mem hi with ⟨k, hk⟩
  have hlt : k < e.processedInputs.length := (List.getElem?_eq_some_iff.1 hk).1
  have hroom : k < epochSizes.capacity := by
    have hlen := he.vouchersTree.room
    rw [List.length_map] at hlen
    omega
  rw [(he.recorded k i hk).position]
  exact ⟨he.vouchersTree.stores.getProof_leaf (z := epochSizes) (by decide) hroom,
    he.noticesTree.stores.getProof_leaf (z := epochSizes) (by decide) hroom⟩

/-- A finished epoch: every proof could be had, and the books are as before. -/
theorem EpochKept.finish (he : EpochKept sound e) :
    (finishedEpoch e).2 = none ∧ EpochKept sound (finishedEpoch e).1 := by
  rcases refreshProofs_ok fun i hi => he.proofs hi with ⟨inputs', hrefresh, hlen, hall⟩
  -- only the proofs in the trees of the epoch have changed
  have hmap : ∀ f : ProcessedInputType → HashType, (∀ i p q, f (i.refreshed p q) = f i) →
      inputs'.map f = e.processedInputs.map f := by
    intro f hf
    refine List.ext_getElem (by simp [hlen]) fun k hk hk' => ?_
    rw [List.length_map] at hk hk'
    rcases hall k _ (List.getElem?_eq_getElem hk) with ⟨i, p, q, hi, hi', -, -⟩
    have heq : e.processedInputs[k] = i := by simpa [List.getElem?_eq_getElem hk'] using hi
    simp [hi', hf, heq]
  have hfinished : finishedEpoch e = ({ e with state := .finished, processedInputs := inputs' },
      none) := by
    simp [finishedEpoch, hrefresh]
  rw [hfinished]
  refine ⟨rfl, ?_, ?_, fun k i' hi' => ?_, fun i' hi' => ?_⟩
  · show Represents hasherType epochSizes e.vouchersTree (inputs'.map voucherLeaf)
    rw [hmap voucherLeaf fun _ _ _ => rfl]
    exact he.vouchersTree
  · show Represents hasherType epochSizes e.noticesTree (inputs'.map noticeLeaf)
    rw [hmap noticeLeaf fun _ _ _ => rfl]
    exact he.noticesTree
  · rcases hall k i' hi' with ⟨i, p, q, hi, rfl, -, -⟩
    rcases he.recorded k i hi with ⟨hposition, hstatus, hvouchers, hnotices, hsound⟩
    exact ⟨hposition, hstatus, hvouchers, hnotices, hsound⟩
  · have hlast : (inputs'.map ProcessedInputType.mostRecentMachineHash).getLast? =
        (e.processedInputs.map ProcessedInputType.mostRecentMachineHash).getLast? := by
      rw [hmap _ fun _ _ _ => rfl]
    rw [List.getLast?_map, List.getLast?_map, hi', Option.map_some] at hlast
    cases hold : e.processedInputs.getLast? with
    | none => simp [hold] at hlast
    | some i =>
        simp only [hold, Option.map_some, Option.some.injEq] at hlast
        rw [hlast]
        exact he.hash i hold

end Epoch

/-! ### The epochs of a session -/

section Session

variable {sound : Soundness} {x x' : SessionType}

omit [Keccak] in
/-- The index before another, even if it wraps around. -/
theorem pred_ne (index : UInt64) : index - 1 ≠ index := by
  intro hsame
  have hlt := index.toNat_lt
  have hone : (1 : UInt64).toNat = 1 := rfl
  rw [← UInt64.toNat_inj, UInt64.toNat_sub, hone] at hsame
  omega

/-- What is not in the books does not matter. -/
theorem SessionKept.congr (hx : SessionKept sound x) (hepochs : x'.epochs = x.epochs)
    (hindex : x'.activeEpochIndex = x.activeEpochIndex)
    (hranges : x'.memoryRange = x.memoryRange) : SessionKept sound x' := by
  refine ⟨?_, ?_, ?_, ?_, ?_, ?_, ?_⟩
  · rw [hepochs, hindex]
    exact hx.active
  · rw [hepochs]
    exact hx.index
  · rw [hepochs, hranges]
    exact hx.kept
  · rw [hepochs, hindex]
    exact hx.closed
  · rw [hepochs, hindex]
    exact hx.carried
  · rw [hranges]
    exact hx.voucherHashes
  · rw [hranges]
    exact hx.noticeHashes

/-- The active epoch is replaced. -/
theorem SessionKept.setActive (hx : SessionKept sound x) {e e' : EpochType}
    (he : x.epochs.lookup x.activeEpochIndex = some e)
    (hkept : EpochKept (sound x.memoryRange) e') (hstate : e'.state = e.state)
    (hindex : e'.epochIndex = e.epochIndex) (hempty : e'.processedInputs = [] →
      e.processedInputs = [] ∧ e'.mostRecentMachineHash = e.mostRecentMachineHash) :
    SessionKept sound { x with epochs := x.epochs.insert x.activeEpochIndex e' } := by
  rcases hx.active with ⟨e₀, he₀, hactive⟩
  rw [he] at he₀
  cases he₀
  have hlookup : ∀ index e₁, (x.epochs.insert x.activeEpochIndex e').lookup index = some e₁ →
      (index = x.activeEpochIndex ∧ e₁ = e') ∨
        (index ≠ x.activeEpochIndex ∧ x.epochs.lookup index = some e₁) := by
    intro index e₁ h₁
    by_cases hne : index = x.activeEpochIndex
    · subst hne
      rw [AList.lookup_insert] at h₁
      cases h₁
      exact Or.inl ⟨rfl, rfl⟩
    · rw [AList.lookup_insert_ne hne] at h₁
      exact Or.inr ⟨hne, h₁⟩
  refine ⟨⟨e', AList.lookup_insert _, hstate.trans hactive⟩, ?_, ?_, ?_, ?_, hx.voucherHashes,
    hx.noticeHashes⟩
  · intro index e₁ h₁
    rcases hlookup index e₁ h₁ with ⟨rfl, rfl⟩ | ⟨-, hold⟩
    · exact hindex.trans (hx.index _ _ he)
    · exact hx.index index e₁ hold
  · intro index e₁ h₁
    rcases hlookup index e₁ h₁ with ⟨-, rfl⟩ | ⟨-, hold⟩
    · exact hkept
    · exact hx.kept index e₁ hold
  · intro index e₁ h₁ hne
    rcases hlookup index e₁ h₁ with ⟨heq, -⟩ | ⟨-, hold⟩
    · exact absurd heq hne
    · exact hx.closed index e₁ hold hne
  · intro e₁ e₂ h₁ hnone h₂
    rcases hlookup _ e₁ h₁ with ⟨-, rfl⟩ | ⟨hne, -⟩
    · rcases hlookup _ e₂ h₂ with ⟨heq, -⟩ | ⟨-, hold⟩
      · exact absurd heq (pred_ne _)
      · exact (hempty hnone).2.trans (hx.carried e e₂ he (hempty hnone).1 hold)
    · exact absurd rfl hne

omit [Keccak] in
/-- The index after one that is not the last. -/
theorem lt_next {index : UInt64} (hroom : index ≠ 0xFFFFFFFFFFFFFFFF) : index < index + 1 := by
  have hne : index.toNat ≠ 2 ^ 64 - 1 := fun hcon => hroom (UInt64.toNat_inj.1 hcon)
  have hlt := index.toNat_lt
  rw [UInt64.lt_iff_toNat_lt, UInt64.toNat_add]
  have hone : (1 : UInt64).toNat = 1 := rfl
  rw [hone, Nat.mod_eq_of_lt (by omega)]
  omega

/-- The active epoch is finished, and the next one starts. -/
theorem SessionKept.newEpoch (hx : SessionKept sound x) {e : EpochType}
    (he : x.epochs.lookup x.activeEpochIndex = some e) (hpending : e.pendingInputs = [])
    (hroom : x.activeEpochIndex ≠ 0xFFFFFFFFFFFFFFFF) :
    SessionKept sound (withNewEpoch (finishedEpoch e).1
      { x with epochs := x.epochs.insert x.activeEpochIndex (finishedEpoch e).1 }) := by
  have hlt := lt_next hroom
  have hfinish := (hx.kept _ e he).finish
  have hlookup : ∀ index e₁, (withNewEpoch (finishedEpoch e).1 { x with
      epochs := x.epochs.insert x.activeEpochIndex (finishedEpoch e).1 }).epochs.lookup index =
        some e₁ →
      (index = x.activeEpochIndex + 1 ∧ e₁ = { EpochType.new with
        epochIndex := x.activeEpochIndex + 1
        mostRecentMachineHash := (finishedEpoch e).1.mostRecentMachineHash }) ∨
      (index = x.activeEpochIndex ∧ e₁ = (finishedEpoch e).1) ∨
      (index ≠ x.activeEpochIndex ∧ x.epochs.lookup index = some e₁) := by
    intro index e₁ h₁
    by_cases hnew : index = x.activeEpochIndex + 1
    · subst hnew
      rw [withNewEpoch, AList.lookup_insert] at h₁
      cases h₁
      exact Or.inl ⟨rfl, rfl⟩
    · rw [withNewEpoch, AList.lookup_insert_ne hnew] at h₁
      by_cases hold : index = x.activeEpochIndex
      · subst hold
        rw [AList.lookup_insert] at h₁
        cases h₁
        exact Or.inr (Or.inl ⟨rfl, rfl⟩)
      · rw [AList.lookup_insert_ne hold] at h₁
        exact Or.inr (Or.inr ⟨hold, h₁⟩)
  refine ⟨⟨_, AList.lookup_insert _, rfl⟩, ?_, ?_, ?_, ?_, hx.voucherHashes, hx.noticeHashes⟩
  · intro index e₁ h₁
    rcases hlookup index e₁ h₁ with ⟨rfl, rfl⟩ | ⟨rfl, rfl⟩ | ⟨-, hold⟩
    · rfl
    · exact hx.index _ e he
    · exact hx.index index e₁ hold
  · intro index e₁ h₁
    rcases hlookup index e₁ h₁ with ⟨-, rfl⟩ | ⟨-, rfl⟩ | ⟨-, hold⟩
    · exact epochKept_new _ _
    · exact hfinish.2
    · exact hx.kept index e₁ hold
  · intro index e₁ h₁ hne
    rcases hlookup index e₁ h₁ with ⟨heq, -⟩ | ⟨rfl, rfl⟩ | ⟨hnot, hold⟩
    · exact absurd heq hne
    · exact ⟨hlt, rfl, hpending⟩
    · rcases hx.closed index e₁ hold hnot with ⟨hbefore, hclosed⟩
      exact ⟨UInt64.lt_trans hbefore hlt, hclosed⟩
  · -- the new epoch starts with the hash of the one that was finished
    intro e₁ e₂ h₁ _ h₂
    have hpred : (withNewEpoch (finishedEpoch e).1 { x with
        epochs := x.epochs.insert x.activeEpochIndex (finishedEpoch e).1 }).activeEpochIndex - 1 =
          x.activeEpochIndex := by
      simp [withNewEpoch]
    rw [hpred] at h₂
    rcases hlookup _ e₁ h₁ with ⟨-, rfl⟩ | ⟨heq, -⟩ | ⟨-, hold⟩
    · rcases hlookup _ e₂ h₂ with ⟨heq, -⟩ | ⟨-, rfl⟩ | ⟨hnot, -⟩
      · exact absurd heq (UInt64.ne_of_lt hlt)
      · rfl
      · exact absurd rfl hnot
    · exact absurd heq (UInt64.ne_of_lt hlt).symm
    · have hbefore := (hx.closed _ e₁ hold (UInt64.ne_of_lt hlt).symm).1
      exact absurd (UInt64.lt_trans hbefore hlt) (UInt64.lt_irrefl _)

/-- A closed epoch is deleted. -/
theorem SessionKept.erase (hx : SessionKept sound x) {index : UInt64}
    (hne : x.activeEpochIndex ≠ index) :
    SessionKept sound { x with epochs := x.epochs.erase index } := by
  have hlookup : ∀ k e, (x.epochs.erase index).lookup k = some e →
      x.epochs.lookup k = some e := by
    intro k e hk
    by_cases heq : k = index
    · subst heq
      rw [AList.lookup_erase] at hk
      cases hk
    · rwa [AList.lookup_erase_ne heq] at hk
  rcases hx.active with ⟨e, he, hactive⟩
  exact ⟨⟨e, (AList.lookup_erase_ne hne).trans he, hactive⟩,
    fun k e hk => hx.index k e (hlookup k e hk), fun k e hk => hx.kept k e (hlookup k e hk),
    fun k e hk => hx.closed k e (hlookup k e hk),
    fun e e' hk hempty hk' => hx.carried e e' (hlookup _ e hk) hempty (hlookup _ e' hk'),
    hx.voucherHashes, hx.noticeHashes⟩

/-- The first epoch of a session. -/
theorem sessionKept_first (hempty : x.epochs = ∅) (hash : HashType)
    (hvouchers : RangeKept x.memoryRange.voucherHashes)
    (hnotices : RangeKept x.memoryRange.noticeHashes) :
    SessionKept sound { x with epochs := x.epochs.insert x.activeEpochIndex { EpochType.new with
      epochIndex := x.activeEpochIndex, mostRecentMachineHash := hash } } := by
  have hlookup : ∀ index e, (x.epochs.insert x.activeEpochIndex { EpochType.new with
      epochIndex := x.activeEpochIndex, mostRecentMachineHash := hash }).lookup index = some e →
      index = x.activeEpochIndex ∧ e = { EpochType.new with
        epochIndex := x.activeEpochIndex, mostRecentMachineHash := hash } := by
    intro index e h
    by_cases hne : index = x.activeEpochIndex
    · subst hne
      rw [AList.lookup_insert] at h
      cases h
      exact ⟨rfl, rfl⟩
    · rw [AList.lookup_insert_ne hne, hempty, AList.lookup_empty] at h
      cases h
  refine ⟨⟨_, AList.lookup_insert _, rfl⟩, ?_, ?_, ?_, ?_, hvouchers, hnotices⟩
  · intro index e h
    rcases hlookup index e h with ⟨rfl, rfl⟩
    rfl
  · intro index e h
    rcases hlookup index e h with ⟨-, rfl⟩
    exact epochKept_new _ _
  · intro index e h hne
    exact absurd (hlookup index e h).1 hne
  · intro e e' _ _ h'
    exact absurd (hlookup _ e' h').1 (pred_ne _)

end Session

end ServerManager
