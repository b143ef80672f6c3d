import Mathlib
import ServerManager.Theory.Order

/-!
# The Counters of the Inputs

The number of an input is the sum of two 64-bit counters: the inputs that wait
and the inputs that were processed. The second one starts where the client says,
and nobody looks at it before it is increased. So the numbers are as many as there
are from there on, and the next one after the last is zero.

As long as there is a number for every input that was accepted, none of the
counters wraps, and every input is recorded under a number that is larger than all
numbers recorded before, whatever the epochs do. An input that is worked on has
left its place in the count of those that wait if its epoch was replaced in the
meantime, so it is counted for itself.

## Main definitions

* `outstanding`: The inputs that wait or are worked on, over all epochs.
* `CountStep`: What a segment does to the counters.
* `Admits`: The request is one that AdvanceState accepts.
* `NumberInv`: The invariant of the counters.
* `Unwrapped`, `Increasing`: The property, for one world and for two.

## Theorems

* `counters_step`: Every segment is such a step.
* `turn_number`: The invariant is kept as long as there are numbers.
* `indices_never_wrap`: The numbers in every run that does not exhaust them.
* `indices_wrap`: A session that starts at the last number.
-/

namespace ServerManager

open Coroutine

/-! ### What is counted -/

/-- How many inputs wait in an epoch. -/
def pendingCount (e : Option EpochType) : Nat := (e.map fun e => e.pendingInputs.length).getD 0

/-- The numbers recorded in an epoch. -/
def recordedIndices (e : Option EpochType) : List UInt64 :=
  (e.map fun e => e.processedInputs.map ProcessedInputType.inputIndex).getD []

/-- A handler works on an input of the epoch. -/
def Busy (φ : HandlerId → Option Phase) (i : UInt64) : Prop :=
  ∃ k number stage, φ k = some (.advancing i number stage)

open Classical in
/-- The inputs of an epoch that wait or are worked on. -/
noncomputable def owed (φ : HandlerId → Option Phase) (r : UInt64 → Option EpochType)
    (i : UInt64) : Nat :=
  max (pendingCount (r i)) (if Busy φ i then 1 else 0)

/-- The same over all epochs. -/
noncomputable def outstanding (φ : HandlerId → Option Phase) (r : UInt64 → Option EpochType) : Nat :=
  ∑ i : UInt64, owed φ r i

/-- AdvanceState answered OK. -/
def isAccepted : Rpc × Answer → Bool
  | (.advanceState _, .finish _) => true
  | _ => false

/-- The number of AdvanceState requests answered OK. -/
def acceptedCount (log : List (Rpc × Answer)) : Nat := log.countP isAccepted

theorem acceptedCount_notes (v : View) : acceptedCount v.notes = acceptedCount v.sent := by
  unfold acceptedCount View.notes
  rw [List.countP_filter]
  congr 1
  funext x
  rcases x with ⟨rpc, a⟩
  cases rpc <;> cases a <;> rfl

theorem acceptedCount_snoc (log : List (Rpc × Answer)) (x : Rpc × Answer) :
    acceptedCount (log ++ [x]) = acceptedCount log + if isAccepted x then 1 else 0 := by
  rw [acceptedCount, List.countP_append, List.countP_singleton]
  rfl

/-- A sum of numbers that only grow in one place. -/
theorem sum_le_sum_of_ne {f g : UInt64 → Nat} {x y : Nat} (a : UInt64)
    (hne : ∀ i, i ≠ a → f i ≤ g i) (ha : f a + x ≤ g a + y) :
    ∑ i, f i + x ≤ ∑ i, g i + y := by
  have hrest : ∑ i ∈ Finset.univ.erase a, f i ≤ ∑ i ∈ Finset.univ.erase a, g i :=
    Finset.sum_le_sum fun i hi => hne i (Finset.ne_of_mem_erase hi)
  rw [← Finset.add_sum_erase _ f (Finset.mem_univ a),
    ← Finset.add_sum_erase _ g (Finset.mem_univ a)]
  omega

/-! ### Steps of the counters -/

/-- The request passes the checks of AdvanceState. -/
structure Admits (v : View) (request : AdvanceStateRequest) : Prop where
  unlocked : v.lock = false
  untainted : v.tainted = false
  epoch : request.activeEpochIndex = v.active
  opened : ∃ e, v.records v.active = some e ∧ e.state = .active ∧
    request.currentInputIndex = UInt64.ofNat e.pendingInputs.length + v.count
  metadata : ∃ input, requestInput request = some input ∧
    input.metadata.inputIndex = request.currentInputIndex

/-- What a segment does to the counters: nothing, or it accepts an input, or it
    records one under the number of those that were processed. -/
inductive CountStep (rpc : Rpc) (ph : Phase) (v v' : View) : Prop
  | keeps (hcount : v'.count = v.count)
      (hindices : ∀ i, recordedIndices (v'.records i) = recordedIndices (v.records i) ∨
        recordedIndices (v'.records i) = [])
      (hpending : ∀ i, pendingCount (v'.records i) ≤ pendingCount (v.records i))
      (haccepted : acceptedCount v'.notes = acceptedCount v.notes)
  | accepts {request : AdvanceStateRequest} (hrpc : rpc = .advanceState request)
      (hph : ph = .fresh) (hadmits : Admits v request) (hcount : v'.count = v.count)
      (hindices : ∀ i, recordedIndices (v'.records i) = recordedIndices (v.records i))
      (hpending : ∀ i, i ≠ v.active → pendingCount (v'.records i) = pendingCount (v.records i))
      (hone : pendingCount (v'.records v.active) = pendingCount (v.records v.active) + 1)
      (haccepted : acceptedCount v'.notes = acceptedCount v.notes + 1)
  | records {index number : UInt64} {stage : Stage} (hph : ph = .advancing index number stage)
      (hcount : v'.count = v.count + 1)
      (hindices : ∀ i, i ≠ index → recordedIndices (v'.records i) = recordedIndices (v.records i))
      (hindex : recordedIndices (v'.records index) = recordedIndices (v.records index) ++ [number])
      (hpending : ∀ i, i ≠ index → pendingCount (v'.records i) = pendingCount (v.records i))
      (hone : pendingCount (v'.records index) = pendingCount (v.records index) - 1)
      (haccepted : acceptedCount v'.notes = acceptedCount v.notes)

/-- Another epoch in a place, that has as many inputs waiting and the same numbers. -/
theorem keeps_update {r r' : UInt64 → Option EpochType} {index : UInt64} {e : Option EpochType}
    (hrec : r' = Function.update r index e) (hindex : recordedIndices e = recordedIndices (r index) ∨
      recordedIndices e = []) (hpending : pendingCount e ≤ pendingCount (r index)) :
    (∀ i, recordedIndices (r' i) = recordedIndices (r i) ∨ recordedIndices (r' i) = []) ∧
      ∀ i, pendingCount (r' i) ≤ pendingCount (r i) := by
  rw [hrec]
  refine ⟨fun i => ?_, fun i => ?_⟩
  · by_cases hi : i = index
    · rw [hi, Function.update_self]
      exact hindex
    · rw [Function.update_of_ne hi]
      exact Or.inl rfl
  · by_cases hi : i = index
    · rw [hi, Function.update_self]
      exact hpending
    · rw [Function.update_of_ne hi]

theorem recordedIndices_tree {g : EpochType → EpochType} (hg : TreeChange g) (e : Option EpochType) :
    recordedIndices (e.map g) = recordedIndices e := by
  cases e with
  | none => rfl
  | some e =>
      show (g e).processedInputs.map _ = e.processedInputs.map _
      rw [(treeChange_state hg e).2.2]

theorem pendingCount_tree {g : EpochType → EpochType} (hg : TreeChange g) (e : Option EpochType) :
    pendingCount (e.map g) = pendingCount e := by
  cases e with
  | none => rfl
  | some e =>
      show (g e).pendingInputs.length = e.pendingInputs.length
      rw [(treeChange_state hg e).2.1]

theorem keeps_finished {r r' : UInt64 → Option EpochType} {index : UInt64} {e : EpochType}
    [Keccak] (he : r index = some e)
    (hrec : r' = Function.update r index (some (finishedEpoch e).1)) :
    (∀ i, recordedIndices (r' i) = recordedIndices (r i) ∨ recordedIndices (r' i) = []) ∧
      ∀ i, pendingCount (r' i) ≤ pendingCount (r i) := by
  refine keeps_update hrec (Or.inl ?_) ?_
  · rw [he]
    exact (finishedEpoch_order e).1
  · rw [he]
    exact Nat.le_refl _

section Steps

variable [Keccak] {rpc : Rpc} {ph : Phase} {v v' : View}

/-- The active epoch is there, and every segment is a step of the counters. -/
theorem counters_step (hstep : RecordStep rpc ph v v') (hpresent : v.records v.active ≠ none) :
    CountStep rpc ph v v' ∧ v'.records v'.active ≠ none := by
  cases hstep with
  | quiet hrec hactive hcount hmcycle hnotes =>
      rw [hrec, hactive]
      exact ⟨.keeps hcount (fun i => Or.inl (by rw [hrec])) (fun i => by rw [hrec]) (by rw [hnotes]),
        hpresent⟩
  | @tree index number stage g hg hph hrec hactive hcount hmcycle hnotes =>
      have hmap : ∀ i, v'.records i = none ↔ v.records i = none := by
        intro i
        rw [hrec]
        by_cases hi : i = index
        · rw [hi, Function.update_self, Option.map_eq_none_iff]
        · rw [Function.update_of_ne hi]
      have hsame := keeps_update hrec (Or.inl (recordedIndices_tree hg _))
        (Nat.le_of_eq (pendingCount_tree hg _))
      exact ⟨.keeps hcount hsame.1 hsame.2 (by rw [hnotes]),
        fun hnone => hpresent ((hmap _).mp (hactive ▸ hnone))⟩
  | @record index number stage e vt nt hash i hph he hi hrec hactive hcount hnotes =>
      have hat : v'.records index = some (recorded vt nt hash i e) := by
        rw [hrec, Function.update_self]
      have hother : ∀ j, j ≠ index → v'.records j = v.records j := by
        intro j hj
        rw [hrec, Function.update_of_ne hj]
      refine ⟨.records hph hcount (fun j hj => by rw [hother j hj]) ?_
        (fun j hj => by rw [hother j hj]) ?_ (by rw [hnotes]), ?_⟩
      · rw [hat, he, ← hi]
        exact List.map_append
      · rw [hat, he]
        exact List.length_tail
      · rw [hactive]
        by_cases hj : v.active = index
        · rw [hj, hat]
          exact Option.some_ne_none _
        · rw [hother _ hj]
          exact hpresent
  | @accept request e input hrpc hph hlock htaint hindex he hstate hnumber hcurrent hinput hrec
      hactive hcount hmcycle hnotes =>
      have hat : v'.records v.active =
          some { e with pendingInputs := e.pendingInputs ++ [input] } := by
        rw [hrec, Function.update_self]
      have hother : ∀ j, j ≠ v.active → v'.records j = v.records j := by
        intro j hj
        rw [hrec, Function.update_of_ne hj]
      have hadmits : Admits v request :=
        ⟨hlock, htaint, hindex, ⟨e, he, hstate, hcurrent.trans hnumber⟩, input, hinput,
          hcurrent.symm⟩
      refine ⟨.accepts hrpc hph hadmits hcount (fun j => ?_) (fun j hj => by rw [hother j hj]) ?_ ?_,
        ?_⟩
      · by_cases hj : j = v.active
        · rw [hj, hat, he]
          rfl
        · rw [hother j hj]
      · rw [hat, he]
        exact List.length_append
      · rw [hnotes, acceptedCount_snoc]
        rfl
      · rw [hactive, hat]
        exact Option.some_ne_none _
  | @delete index e hrpc hph hlock he hstate hne hrec hactive hcount hmcycle hnotes =>
      have hsame := keeps_update hrec (Or.inr rfl) (Nat.zero_le _)
      refine ⟨.keeps hcount hsame.1 hsame.2 ?_, ?_⟩
      · rw [hnotes, acceptedCount_snoc]
        rfl
      · rw [hactive, hrec, Function.update_of_ne hne]
        exact hpresent
  | @finish request e hrpc hready he hrec hactive hcount hmcycle hnotes =>
      have hclosed := keeps_finished he rfl
      have hopened := keeps_update (r := Function.update v.records request.activeEpochIndex
        (some (finishedEpoch e).1)) hrec (Or.inr rfl) (Nat.zero_le _)
      refine ⟨.keeps hcount (fun i => ?_) (fun i => (hopened.2 i).trans (hclosed.2 i)) ?_, ?_⟩
      · rcases hopened.1 i with hsame | hnil
        · rw [hsame]
          exact hclosed.1 i
        · exact Or.inr hnil
      · rcases hnotes with hsame | ⟨_, _, _, _, happ⟩
        · rw [hsame]
        · rw [happ, acceptedCount_snoc]
          rfl
      · rw [hactive, hrec]
        show startedRecords _ _ _ _ (v.active + 1) ≠ none
        unfold startedRecords
        rw [Function.update_self]
        exact Option.some_ne_none _
  | @spoil request e hrpc hready he hrec hactive hcount hmcycle hnotes =>
      have hclosed := keeps_finished he hrec
      refine ⟨.keeps hcount hclosed.1 hclosed.2 (by rw [hnotes]), ?_⟩
      rw [hactive, hrec]
      by_cases hi : v.active = request.activeEpochIndex
      · rw [hi, Function.update_self]
        exact Option.some_ne_none _
      · rw [Function.update_of_ne hi]
        exact hpresent
  | missing he => exact absurd he hpresent

/-- A handler that works on an input has the number of those that were processed.
    It worked on the same epoch before, or there is an input in the queue. -/
theorem trans_advancing {h : HandlerId} {index number : UInt64} {stage : Stage}
    (hstep : Trans h rpc ph v (some (.advancing index number stage)) v')
    (hnumber : ∀ i n s, ph = .advancing i n s → n = v.count) :
    number = v'.count ∧ ((v'.count = v.count ∧ ∃ n s, ph = .advancing index n s) ∨
      1 ≤ pendingCount (v'.records index)) := by
  have hpositive : ∀ {v : View} {e : EpochType}, v.epochs index = some e → e.pendingInputs ≠ [] →
      1 ≤ pendingCount (v.records index) := by
    intro v e he hpend
    rw [records_some he]
    exact List.length_pos_iff.mpr hpend
  cases hstep with
  | finish _ _ _ _ _ _ _ hf => cases hf
  | stored _ hf => cases hf
  | start hs =>
      cases hs with
      | accepted _ he hlen => exact ⟨rfl, Or.inr (hpositive he (List.ne_nil_of_length_eq_add_one hlen))⟩
      | handedOff he hpend => exact ⟨rfl, Or.inr (hpositive he hpend)⟩
      | @recorded _ _ _ _ _ e f _ he hf hq hpend =>
          refine ⟨rfl, Or.inr (hpositive (e := f e) ?_ hpend)⟩
          show Function.update _ _ _ _ = _
          rw [Function.update_self, he]
          rfl
  | acceptedTaint _ ht => cases ht
  | advance hf hw => exact ⟨hnumber _ _ _ rfl, Or.inl ⟨rfl, _, _, rfl⟩⟩
  | advanceTaint _ ht => cases ht

end Steps

section Owed

variable {φ φ' : HandlerId → Option Phase} {r r' : UInt64 → Option EpochType} {i : UInt64}

theorem owed_le (hpending : pendingCount (r' i) ≤ pendingCount (r i))
    (hbusy : Busy φ' i → Busy φ i ∨ 1 ≤ pendingCount (r' i)) : owed φ' r' i ≤ owed φ r i := by
  unfold owed
  by_cases hb' : Busy φ' i
  · rw [if_pos hb']
    rcases hbusy hb' with hb | hone
    · rw [if_pos hb]
      omega
    · omega
  · rw [if_neg hb']
    omega

theorem owed_accepted (hone : pendingCount (r' i) = pendingCount (r i) + 1) :
    owed φ' r' i ≤ owed φ r i + 1 := by
  unfold owed
  split <;> omega

/-- The input that was worked on is gone. -/
theorem owed_recorded (hone : pendingCount (r' i) = pendingCount (r i) - 1) (hb : Busy φ i)
    (hbusy : Busy φ' i → 1 ≤ pendingCount (r' i)) : owed φ' r' i + 1 ≤ owed φ r i := by
  unfold owed
  rw [if_pos hb]
  by_cases hb' : Busy φ' i
  · have hpos := hbusy hb'
    rw [if_pos hb']
    omega
  · rw [if_neg hb']
    omega

/-- No epoch has more inputs than there are. -/
theorem pendingCount_le (φ : HandlerId → Option Phase) (r : UInt64 → Option EpochType)
    (i : UInt64) : pendingCount (r i) ≤ outstanding φ r := by
  have hone : owed φ r i ≤ outstanding φ r :=
    Finset.single_le_sum (fun _ _ => Nat.zero_le _) (Finset.mem_univ i)
  exact Nat.le_trans (Nat.le_max_left _ _) hone

end Owed

/-! ### The invariant -/

/-- There is a number for every input that was accepted, the counters did not wrap,
    and the numbers recorded are all different, below the next one, and in order in
    every epoch. -/
structure NumberInv (start : UInt64) (φ : HandlerId → Option Phase) (v : View) : Prop where
  processing : ProcessingInv φ v
  present : v.records v.active ≠ none
  numbered : ∀ k index number stage, φ k = some (.advancing index number stage) → number = v.count
  spare : start.toNat + acceptedCount v.notes < 2 ^ 64
  counted : v.count.toNat + outstanding φ v.records ≤ start.toNat + acceptedCount v.notes
  below : ∀ i n, n ∈ recordedIndices (v.records i) → n < v.count
  sorted : ∀ i, (recordedIndices (v.records i)).Pairwise (· < ·)
  distinct : ∀ i j n, n ∈ recordedIndices (v.records i) → n ∈ recordedIndices (v.records j) → i = j

section Turns

variable [Keccak] {w : Manager} {φ φ' : HandlerId → Option Phase} {e : Event} {i : HandlerId}
  {rpc : Rpc} {ph : Phase} {v₀ v' : View} {t : Option Phase} {start : UInt64}

/-- Who works on an input after a turn. -/
theorem busy_turn (hturn : Turn w φ e i rpc ph v₀ t φ' v') {index : UInt64}
    (hbusy : Busy φ' index) : (∃ number stage, t = some (.advancing index number stage)) ∨
      ∃ k, k ≠ i ∧ ∃ number stage, φ k = some (.advancing index number stage) := by
  rcases hbusy with ⟨k, number, stage, hk⟩
  by_cases hki : k = i
  · rw [hki, hturn.after] at hk
    exact Or.inl ⟨number, stage, hk⟩
  · rcases hturn.others k hki with hsame | ⟨hnone, _⟩
    · exact Or.inr ⟨k, hki, number, stage, hsame ▸ hk⟩
    · rw [hnone] at hk
      cases hk

/-- The invariant, for the view a handler begins to run with. -/
theorem NumberInv.enter (hI : NumberInv start φ (View.of w.shared))
    (henters : Enters w φ e i rpc ph v₀) : NumberInv start φ v₀ := by
  have hrec := henters.records
  have hcount := henters.count
  have hnotes := henters.notes
  refine ⟨⟨?_, hI.processing.unique⟩, ?_, ?_, ?_, ?_, ?_, ?_, ?_⟩
  · rw [henters.processing]
    exact hI.processing.set
  · rw [hrec, henters.active]
    exact hI.present
  · rw [hcount]
    exact hI.numbered
  · rw [hnotes]
    exact hI.spare
  · rw [hcount, hrec, hnotes]
    exact hI.counted
  · rw [hcount, hrec]
    exact hI.below
  · rw [hrec]
    exact hI.sorted
  · rw [hrec]
    exact hI.distinct

omit [Keccak] in
/-- There is a next number while an input is worked on. -/
theorem NumberInv.next (hI : NumberInv start φ v₀) {index : UInt64} (hbusy : Busy φ index) :
    (v₀.count + 1).toNat = v₀.count.toNat + 1 := by
  have hone : 1 ≤ owed φ v₀.records index := by
    unfold owed
    rw [if_pos hbusy]
    exact Nat.le_max_right _ _
  have hsum : owed φ v₀.records index ≤ outstanding φ v₀.records :=
    Finset.single_le_sum (fun _ _ => Nat.zero_le _) (Finset.mem_univ index)
  have hcounted := hI.counted
  have hspare := hI.spare
  rw [UInt64.toNat_add, UInt64.toNat_one]
  exact Nat.mod_eq_of_lt (by omega)

omit [Keccak] in
theorem NumberInv.lt_next (hI : NumberInv start φ v₀) {index : UInt64} (hbusy : Busy φ index) :
    v₀.count < v₀.count + 1 := by
  rw [UInt64.lt_iff_toNat_lt, hI.next hbusy]
  exact Nat.lt_succ_self _

/-- Nobody else works on an input while a handler that processes runs. -/
theorem NumberInv.sole (hI : NumberInv start φ (View.of w.shared))
    (henters : Enters w φ e i rpc ph v₀) {index number : UInt64} {stage : Stage}
    (hph : ph = .advancing index number stage) {k : HandlerId} (hk : k ≠ i) {j n : UInt64}
    {s : Stage} : φ k ≠ some (.advancing j n s) := by
  intro hφ
  have hi : φ i = some ph := henters.parked (hph ▸ Phase.noConfusion)
  exact hk (hI.processing.unique k i (phaseIn_of hφ rfl) (phaseIn_of hi (hph ▸ rfl)))

/-- A turn keeps the invariant, as long as there is a number for an input that is
    accepted. -/
theorem turn_number (hturn : Turn w φ e i rpc ph v₀ t φ' v')
    (hI : NumberInv start φ (View.of w.shared))
    (hspare : ∀ request, rpc = .advanceState request → ph = .fresh → Admits v₀ request →
      start.toNat + acceptedCount v₀.notes + 1 < 2 ^ 64) :
    NumberInv start φ' v' := by
  have hprocessing := turn_processing hturn hI.processing
  have hI₀ := hI.enter hturn.enters
  rcases counters_step (trans_records hturn.trans) hI₀.present with ⟨hstep, hpresent⟩
  have hnumber : ∀ j n s, ph = .advancing j n s → n = v₀.count := by
    rintro j n s rfl
    exact hI₀.numbered i j n s (hturn.enters.parked Phase.noConfusion)
  have hadvancing : ∀ {j n s}, t = some (.advancing j n s) → n = v'.count ∧
      ((v'.count = v₀.count ∧ ∃ n s, ph = .advancing j n s) ∨ 1 ≤ pendingCount (v'.records j)) := by
    rintro j n s rfl
    exact trans_advancing hturn.trans hnumber
  have hbusyBefore : ∀ {j n s}, ph = .advancing j n s → Busy φ j := by
    rintro j n s rfl
    exact ⟨i, n, s, hturn.enters.parked Phase.noConfusion⟩
  -- Who works on an input now did so before, or its epoch has one in the queue.
  have hbusy : ∀ {j}, Busy φ' j → Busy φ j ∨ 1 ≤ pendingCount (v'.records j) := by
    intro j hj
    rcases busy_turn hturn hj with ⟨n, s, ht⟩ | ⟨k, _, n, s, hk⟩
    · rcases (hadvancing ht).2 with ⟨_, n', s', hph⟩ | hone
      · exact Or.inl (hbusyBefore hph)
      · exact Or.inr hone
    · exact Or.inl ⟨k, n, s, hk⟩
  have hnumbered : (v'.count = v₀.count ∨ ∃ j n s, ph = .advancing j n s) →
      ∀ k j n s, φ' k = some (.advancing j n s) → n = v'.count := by
    intro hwhen k j n s hk
    by_cases hki : k = i
    · rw [hki, hturn.after] at hk
      exact (hadvancing hk).1
    · rcases hturn.others k hki with hsame | ⟨hnone, _⟩
      · rw [hsame] at hk
        rcases hwhen with hcount | ⟨j', n', s', hph⟩
        · rw [hcount]
          exact hI₀.numbered k j n s hk
        · exact absurd hk (hI.sole hturn.enters hph hki)
      · rw [hnone] at hk
        cases hk
  cases hstep with
  | keeps hcount hindices hpending haccepted =>
      have hmem : ∀ j n, n ∈ recordedIndices (v'.records j) → n ∈ recordedIndices (v₀.records j) := by
        intro j n hn
        rcases hindices j with hsame | hnil
        · exact hsame ▸ hn
        · rw [hnil] at hn
          cases hn
      have hsum : outstanding φ' v'.records ≤ outstanding φ v₀.records :=
        Finset.sum_le_sum fun j _ => owed_le (hpending j) hbusy
      refine ⟨hprocessing, hpresent, hnumbered (Or.inl hcount), haccepted ▸ hI₀.spare, ?_,
        fun j n hn => hcount ▸ hI₀.below j n (hmem j n hn), fun j => ?_,
        fun j k n hj hk => hI₀.distinct j k n (hmem j n hj) (hmem k n hk)⟩
      · rw [hcount, haccepted]
        exact Nat.le_trans (Nat.add_le_add_left hsum _) hI₀.counted
      · rcases hindices j with hsame | hnil
        · exact hsame ▸ hI₀.sorted j
        · exact hnil ▸ List.Pairwise.nil
  | @accepts request hrpc hph hadmits hcount hindices hpending hone haccepted =>
      have hroom := hspare request hrpc hph hadmits
      have hsum : outstanding φ' v'.records + 0 ≤ outstanding φ v₀.records + 1 :=
        sum_le_sum_of_ne v₀.active (fun j hj => owed_le (Nat.le_of_eq (hpending j hj)) hbusy)
          (owed_accepted hone)
      refine ⟨hprocessing, hpresent, hnumbered (Or.inl hcount), ?_, ?_, fun j => ?_, fun j => ?_,
        fun j k => ?_⟩
      · rw [haccepted]
        exact hroom
      · have hcounted := hI₀.counted
        rw [hcount, haccepted]
        omega
      · rw [hindices j, hcount]
        exact hI₀.below j
      · rw [hindices j]
        exact hI₀.sorted j
      · rw [hindices j, hindices k]
        exact hI₀.distinct j k
  | @records index number stage hph hcount hindices hindex hpending hone haccepted =>
      have hnum : number = v₀.count := hnumber index number stage hph
      have hbusyIndex : Busy φ' index → 1 ≤ pendingCount (v'.records index) := by
        intro hj
        rcases busy_turn hturn hj with ⟨n, s, ht⟩ | ⟨k, hk, n, s, hφ⟩
        · rcases (hadvancing ht).2 with ⟨hsame, _⟩ | hpos
          · rw [hcount] at hsame
            exact absurd hsame (by simp)
          · exact hpos
        · exact absurd hφ (hI.sole hturn.enters hph hk)
      have hsum : outstanding φ' v'.records + 1 ≤ outstanding φ v₀.records + 0 :=
        sum_le_sum_of_ne index (fun j hj => owed_le (Nat.le_of_eq (hpending j hj)) hbusy)
          (owed_recorded hone (hbusyBefore hph) hbusyIndex)
      have hcounted := hI₀.counted
      have hspared := hI₀.spare
      have hnext := hI₀.next (hbusyBefore hph)
      have hlt := hI₀.lt_next (hbusyBefore hph)
      -- What was recorded in an epoch, and where the new number is.
      have hmem : ∀ {j n}, n ∈ recordedIndices (v'.records j) →
          n ∈ recordedIndices (v₀.records j) ∨ (j = index ∧ n = v₀.count) := by
        intro j n hn
        by_cases hj : j = index
        · rw [hj, hindex, hnum, List.mem_append, List.mem_singleton] at hn
          exact hn.imp (fun hold => hj ▸ hold) fun hnew => ⟨hj, hnew⟩
        · exact Or.inl (hindices j hj ▸ hn)
      have hnew : ∀ {j n}, n ∈ recordedIndices (v₀.records j) → n ≠ v₀.count :=
        fun hn => UInt64.ne_of_lt (hI₀.below _ _ hn)
      refine ⟨hprocessing, hpresent, hnumbered (Or.inr ⟨_, _, _, hph⟩), haccepted ▸ hspared, ?_,
        fun j n hn => ?_, fun j => ?_, fun j k n hj hk => ?_⟩
      · rw [hcount, haccepted, hnext]
        omega
      · rw [hcount]
        rcases hmem hn with hold | ⟨_, rfl⟩
        · exact UInt64.lt_trans (hI₀.below j n hold) hlt
        · exact hlt
      · by_cases hj : j = index
        · rw [hj, hindex, hnum, List.pairwise_append]
          refine ⟨hI₀.sorted index, List.pairwise_singleton _ _, fun n hn m hm => ?_⟩
          rw [List.mem_singleton.mp hm]
          exact hI₀.below index n hn
        · rw [hindices j hj]
          exact hI₀.sorted j
      · rcases hmem hj with hold | ⟨hji, hn⟩
        · rcases hmem hk with hold' | ⟨_, hn⟩
          · exact hI₀.distinct j k n hold hold'
          · exact absurd hn (hnew hold)
        · rcases hmem hk with hold' | ⟨hki, _⟩
          · exact absurd hn (hnew hold')
          · rw [hji, hki]

/-- What a turn records has the number that was next. -/
theorem turn_increasing (hturn : Turn w φ e i rpc ph v₀ t φ' v')
    (hI : NumberInv start φ (View.of w.shared)) :
    (View.of w.shared).count ≤ v'.count ∧ ∀ j n, n ∈ recordedIndices (v'.records j) →
      n ∈ recordedIndices ((View.of w.shared).records j) ∨ (View.of w.shared).count ≤ n := by
  have hI₀ := hI.enter hturn.enters
  rw [← hturn.enters.count, ← hturn.enters.records]
  rcases (counters_step (trans_records hturn.trans) hI₀.present).1 with
    ⟨hcount, hindices, _, _⟩ | ⟨_, _, _, hcount, hindices, _, _, _⟩ |
    @⟨index, number, stage, hph, hcount, hindices, hindex, _, _, _⟩
  · refine ⟨UInt64.le_of_eq hcount.symm, fun j n hn => ?_⟩
    rcases hindices j with hsame | hnil
    · exact Or.inl (hsame ▸ hn)
    · rw [hnil] at hn
      cases hn
  · exact ⟨UInt64.le_of_eq hcount.symm, fun j n hn => Or.inl (hindices j ▸ hn)⟩
  · have hi : φ i = some (.advancing index number stage) :=
      hph ▸ hturn.enters.parked (hph ▸ Phase.noConfusion)
    refine ⟨hcount ▸ UInt64.le_of_lt (hI₀.lt_next ⟨i, number, stage, hi⟩), fun j n hn => ?_⟩
    by_cases hj : j = index
    · rw [hj, hindex, hI₀.numbered i _ _ _ hi, List.mem_append, List.mem_singleton] at hn
      rcases hn with hold | hnew
      · exact Or.inl (hj ▸ hold)
      · exact Or.inr (UInt64.le_of_eq hnew.symm)
    · exact Or.inl (hindices j hj ▸ hn)

end Turns

/-! ### Runs -/

/-- An AdvanceState request is only accepted while there is a number for the input:
    where the processed inputs are counted from, and the inputs accepted so far,
    come to less than the last number. -/
def Spares (start : UInt64) (w : Manager) (e : Event) (_ : Manager) : Prop :=
  Legal e ∧ ∀ request peer fuel env, e = .arrive (.advanceState request) peer fuel env →
    Admits (View.of w.shared) request → start.toNat + acceptedCount w.shared.sent + 1 < 2 ^ 64

/-- No counter has wrapped, and the numbers recorded are all different, those of an
    epoch in order. -/
structure Unwrapped (w : Manager) : Prop where
  room : ∀ e, epochOf w (activeEpoch w) = some e →
    e.pendingInputs.length + (processedCount w).toNat < 2 ^ 64
  below : ∀ i n, n ∈ recordedIndices (epochOf w i) → n < processedCount w
  sorted : ∀ i, (recordedIndices (epochOf w i)).Pairwise (· < ·)
  distinct : ∀ i j n, n ∈ recordedIndices (epochOf w i) → n ∈ recordedIndices (epochOf w j) → i = j

/-- The number of processed inputs has not decreased, and what was recorded since
    has larger numbers than all that was recorded before. -/
structure Increasing (w w' : Manager) : Prop where
  count : processedCount w ≤ processedCount w'
  later : ∀ i n, n ∈ recordedIndices (epochOf w' i) → n ∉ recordedIndices (epochOf w i) →
    ∀ j m, m ∈ recordedIndices (epochOf w j) → m < n

theorem recordedIndices_records (w : Manager) (i : UInt64) :
    recordedIndices ((View.of w.shared).records i) = recordedIndices (epochOf w i) := by
  rw [epochOf_eq]
  unfold View.records
  cases (View.of w.shared).epochs i <;> rfl

theorem unwrapped_of {start : UInt64} {φ : HandlerId → Option Phase} {w : Manager}
    (hI : NumberInv start φ (View.of w.shared)) : Unwrapped w where
  room e he := by
    have hcounted := hI.counted
    have hspare := hI.spare
    have hpending := pendingCount_le φ (View.of w.shared).records (activeEpoch w)
    rw [epochOf_records he] at hpending
    have hlength : pendingCount (some (clearQuery e)) = e.pendingInputs.length := rfl
    rw [processedCount_eq]
    omega
  below i n hn := by
    rw [processedCount_eq]
    rw [← recordedIndices_records] at hn
    exact hI.below i n hn
  sorted i := recordedIndices_records w i ▸ hI.sorted i
  distinct i j n hi hj := by
    rw [← recordedIndices_records] at hi hj
    exact hI.distinct i j n hi hj

section Runs

variable [Keccak]

omit [Keccak] in
theorem numberInv_fresh {v : View} {e : EpochType} (hv : FreshView v e) :
    NumberInv v.count (fun _ => none) v := by
  have hat : ∀ i, v.records i = some (clearQuery e) ∨ v.records i = none := by
    intro i
    rw [hv.records]
    by_cases hi : i = v.active
    · rw [hi, Function.update_self]
      exact Or.inl rfl
    · rw [Function.update_of_ne hi]
      exact Or.inr rfl
  have hindices : ∀ i, recordedIndices (v.records i) = [] := by
    intro i
    rcases hat i with hsome | hnone
    · rw [hsome]
      show e.processedInputs.map _ = []
      rw [hv.processed]
      rfl
    · rw [hnone]
      rfl
  have howed : ∀ i, owed (fun _ => none) v.records i = 0 := by
    intro i
    have hidle : ¬ Busy (fun _ => none) i := by
      rintro ⟨k, number, stage, hk⟩
      cases hk
    unfold owed
    rw [if_neg hidle]
    rcases hat i with hsome | hnone
    · rw [hsome]
      show max e.pendingInputs.length 0 = 0
      rw [hv.pending]
      rfl
    · rw [hnone]
      rfl
  refine ⟨guarded_idle, ?_, fun _ _ _ _ hk => (Option.some_ne_none _ hk.symm).elim, ?_, ?_,
    fun i n hn => ?_, fun i => ?_, fun i j n hn => ?_⟩
  · rw [hv.records, Function.update_self]
    exact Option.some_ne_none _
  · rw [hv.notes]
    exact v.count.toNat_lt
  · rw [outstanding, Finset.sum_eq_zero fun i _ => howed i, hv.notes]
    exact Nat.le_refl _
  · rw [hindices i] at hn
    cases hn
  · rw [hindices i]
    exact List.Pairwise.nil
  · rw [hindices i] at hn
    cases hn

/-- The invariant, from one world of a run to a later one. -/
theorem spares_turn {start : UInt64} {w w' : Manager} {φ φ' : HandlerId → Option Phase} {e : Event}
    {i : HandlerId} {rpc : Rpc} {ph : Phase} {v₀ : View} {t : Option Phase}
    (hc : Spares start w e w') (ha : sessionProtocol.Abides w φ)
    (hturn : Turn w φ e i rpc ph v₀ t φ' (View.of w'.shared))
    (hI : NumberInv start φ (View.of w.shared)) : NumberInv start φ' (View.of w'.shared) := by
  refine turn_number hturn hI fun request hrpc hph hadmits => ?_
  rw [hturn.enters.notes, acceptedCount_notes, view_of_sent]
  rcases hturn.enters.arrival ha hph with ⟨peer, fuel, env, he⟩ | ⟨a, env, _, ha⟩
  · rw [hrpc] at he
    refine hc.2 request peer fuel env he ?_
    rcases hadmits with ⟨hlock, htaint, hepoch, hopened, hmetadata⟩
    rw [hturn.enters.records, hturn.enters.active, hturn.enters.count] at hopened
    exact ⟨hturn.enters.lock ▸ hlock, hturn.enters.tainted ▸ htaint, hturn.enters.active ▸ hepoch,
      hopened, hmetadata⟩
  · rw [hrpc] at ha
    cases ha

/-- In every run in which no input is accepted after the last number, the counters
    do not wrap, and the numbers that are recorded grow, over the whole life of a
    session that starts with any number. -/
theorem indices_never_wrap {hctx : HandlerContext} {session : SessionType}
    (hfresh : FreshSession hctx session) {w w' : Manager}
    (hrun : Runs step (Spares session.processedInputCount) (idle hctx) w)
    (hlater : Runs step (Spares session.processedInputCount) w w') (hw' : w'.halted = none) :
    Unwrapped w' ∧ Increasing w w' := by
  rcases freshView_of hfresh with ⟨e₀, hv⟩
  have hstart : (View.of hctx).count = session.processedInputCount := by
    unfold View.of
    rw [hfresh.entry]
  have h₀ : Good (NumberInv session.processedInputCount) (idle hctx) :=
    good_idle ⟨session, hfresh.entry⟩ (hstart ▸ numberInv_fresh hv)
  rcases runs_good hrun (fun _ _ _ hc => hc.1) h₀
    (fun hc ha _ hI hturn => spares_turn hc ha hturn hI) (runs_running hlater hw') with ⟨φ, ha, hI⟩
  -- What is recorded from here on has no smaller number than the next one.
  let Since : View → Prop := fun v => (View.of w.shared).count ≤ v.count ∧
    ∀ i n, n ∈ recordedIndices (v.records i) →
      n ∈ recordedIndices ((View.of w.shared).records i) ∨ (View.of w.shared).count ≤ n
  have hgood : Good (fun φ v => NumberInv session.processedInputCount φ v ∧ Since v) w' := by
    refine runs_good hlater (fun _ _ _ hc => hc.1)
      ⟨φ, ha, hI, UInt64.le_refl _, fun _ _ hn => Or.inl hn⟩ ?_ hw'
    rintro w₁ w₂ φ₁ φ₂ e i rpc ph v₀ t hc ha₁ _ ⟨hI₁, hcount, hsince⟩ hturn
    rcases turn_increasing hturn hI₁ with ⟨hle, hnew⟩
    refine ⟨spares_turn hc ha₁ hturn hI₁, UInt64.le_trans hcount hle, fun j n hn => ?_⟩
    rcases hnew j n hn with hold | hnext
    · exact hsince j n hold
    · exact Or.inr (UInt64.le_trans hcount hnext)
  rcases hgood with ⟨φ', _, hI', hcount, hsince⟩
  refine ⟨unwrapped_of hI', ?_, fun i n hn hnot j m hm => ?_⟩
  · rw [processedCount_eq, processedCount_eq]
    exact hcount
  · rw [← recordedIndices_records] at hn hnot hm
    rcases hsince i n hn with hold | hnext
    · exact absurd hold hnot
    · exact UInt64.lt_of_lt_of_le (hI.below j m hm) hnext

end Runs

end ServerManager

/-! ### On the sample session -/

namespace ServerManager

open Coroutine

attribute [local instance] keccak256

/-- The session starts with the last number. -/
def lastStart : StartSessionRequest :=
  { sampleStart with processedInputCount := 0xFFFFFFFFFFFFFFFF }

/-- An input is accepted, processed and recorded, by handler `h`. -/
def recordingEvents (n : UInt64) (h : HandlerId) : List Event :=
  [.request (.advanceState (sampleRequest n)), .answered h, .answered h, .checkIn, .answered (h + 1),
    .answered h, .checkIn, .answered (h + 2), .answered h]

/-- StartSession as in the sample, and two inputs. -/
def wrappingEvents : List Event :=
  [.request (.startSession lastStart), .checkIn, .answered 1] ++
    List.replicate 7 (.complete 0 startReply calm) ++
    recordingEvents 0xFFFFFFFFFFFFFFFF 2 ++ recordingEvents 0 5

def WrapRpc : Rpc → Bool
  | .startSession _ | .advanceState _ | .checkIn _ => true
  | _ => false

theorem indices_wrap : ∃ w, Runs step (fun _ e _ => e.only WrapRpc) (idle emptyContext) w ∧
    w.halted = none ∧ recordedIndices (epochOf w 0) = [0xFFFFFFFFFFFFFFFF, 0] ∧
    processedCount w = 1 ∧ ¬ Unwrapped w := by
  have hplay : ∃ w, Runs step (fun _ e _ => e.only WrapRpc) (idle emptyContext) w ∧
      (w.halted.isNone && (recordedIndices (epochOf w 0) == [0xFFFFFFFFFFFFFFFF, 0] &&
        processedCount w == 1)) = true :=
    exists_run (fun _ e _ => e.only WrapRpc) wrappingEvents (fun _ _ _ h => h) (by decide +kernel)
  rcases hplay with ⟨w, hrun, hw⟩
  rw [Bool.and_eq_true, Bool.and_eq_true, Option.isNone_iff_eq_none, beq_iff_eq, beq_iff_eq] at hw
  rcases hw with ⟨hhalted, hindices, hcount⟩
  refine ⟨w, hrun, hhalted, hindices, hcount, fun hunwrapped => ?_⟩
  have hsorted := hunwrapped.sorted 0
  rw [hindices] at hsorted
  exact absurd hsorted (by decide)

/-- The client counts the inputs: there were few. -/
def sparesTest (w : Manager) (e : Event) (_ : Manager) : Bool :=
  decide (Legal e) && decide (acceptedCount w.shared.sent < 10)

theorem spares_of_test {w w' : Manager} {e : Event} (h : sparesTest w e w' = true) :
    Spares sampleSession.processedInputCount w e w' := by
  rw [sparesTest, Bool.and_eq_true, decide_eq_true_eq, decide_eq_true_eq] at h
  refine ⟨h.1, fun _ _ _ _ _ _ => ?_⟩
  have hfew := h.2
  have hzero : sampleSession.processedInputCount.toNat = 0 := by decide
  omega

/-- An input is recorded, and later another one. -/
theorem indices_never_wrap_sample : ∃ w w',
    Runs step (Spares sampleSession.processedInputCount) (idle sampleContext) w ∧
    Runs step (Spares sampleSession.processedInputCount) w w' ∧
    recordedIndices (epochOf w 0) = [0] ∧ recordedIndices (epochOf w' 0) = [0, 1] ∧
    Unwrapped w' ∧ Increasing w w' := by
  have hplay : ∃ w, Runs step (Spares sampleSession.processedInputCount) (idle sampleContext) w ∧
      (recordedIndices (epochOf w 0) == [0] &&
        (play step sparesTest w (recordingEvents 1 3)).any fun w =>
          w.halted.isNone && recordedIndices (epochOf w 0) == [0, 1]) = true :=
    exists_run sparesTest (recordingEvents 0 0) (fun _ _ _ => spares_of_test) (by decide +kernel)
  rcases hplay with ⟨w, hrun, hw⟩
  rw [Bool.and_eq_true, beq_iff_eq] at hw
  rcases exists_run (C := Spares sampleSession.processedInputCount) _ _
    (fun _ _ _ => spares_of_test) hw.2 with ⟨w', hlater, hw'⟩
  rw [Bool.and_eq_true, Option.isNone_iff_eq_none, beq_iff_eq] at hw'
  rcases indices_never_wrap freshSession_sample hrun hlater hw'.1 with ⟨hunwrapped, hincreasing⟩
  exact ⟨w, w', hrun, hlater, hw.1, hw'.2, hunwrapped, hincreasing⟩

end ServerManager
