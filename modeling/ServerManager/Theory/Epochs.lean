import ServerManager.Theory.Lock
import ServerManager.Theory.Records

/-!
# The Epochs of a Session

The invariant of the epochs, and what the handlers that are parked rely on.
FinishEpoch looks at the epoch, may wait a long time in the store call, and then
closes the epoch without looking again. AdvanceState takes the number of an
input from a counter, waits for the machine, and then records the input under
that number. `Phase.Holds` says what they take for granted, and `trans_holds`
and `holds_elsewhere` that it is so.

## Main definitions

* `Phase.Holds`: What a handler that is parked relies on.
* `EpochsOk`: The invariant of the epochs.
* `WorkInv`: The invariant of those that work on them.

## Theorems

* `epochsOk_step`: The epochs after a record step.
* `trans_holds`: A handler can rely on what its phase says.
* `holds_elsewhere`: Other handlers do not break it.
* `turn_work`: The invariant is kept.
-/

namespace ServerManager

open Coroutine

variable [Keccak]

omit [Keccak] in
/-- The next epoch index is new, unless it wraps around. -/
theorem lt_next_epoch {i active : UInt64} (hi : i ≤ active)
    (hmax : active ≠ 0xFFFFFFFFFFFFFFFF) : i < active + 1 := by
  have hne : active.toNat ≠ 0xFFFFFFFFFFFFFFFF := fun h => hmax (UInt64.toNat_inj.1 h)
  have hlt := active.toNat_lt
  rw [UInt64.le_iff_toNat_le] at hi
  rw [UInt64.lt_iff_toNat_lt, UInt64.toNat_add]
  have hone : (1 : UInt64).toNat = 1 := rfl
  rw [hone, Nat.mod_eq_of_lt (by omega)]
  omega

/-- What a handler that is parked in a phase relies on. FinishEpoch relies on
    the epoch it is about to close being drained, and AdvanceState on the epoch
    it works on being open, with the input it works on in its queue, and on the
    counter not having moved. -/
def Phase.Holds (v : View) : Phase → Prop
  | .storing index => index = v.active ∧ v.active ≠ 0xFFFFFFFFFFFFFFFF ∧
      ∃ e, v.records index = some e ∧ e.state = .active ∧ e.pendingInputs = []
  | .advancing index number _ => index = v.active ∧ number = v.count ∧
      ∃ e, v.records index = some e ∧ e.state = .active ∧ e.pendingInputs ≠ []
  | _ => True

/-- The epochs of a session: the active one is there and is the last, no other
    one is open, a finished one is drained, and what FinishEpoch answered is
    still so. -/
structure EpochsOk (r : UInt64 → Option EpochType) (active : UInt64)
    (notes : List (Rpc × Answer)) : Prop where
  present : r active ≠ none
  below : ∀ i e, r i = some e → i ≤ active
  one : ∀ i e, r i = some e → e.state = .active → i = active
  drained : ∀ i e, r i = some e → e.state = .finished → e.pendingInputs = []
  logged : ∀ request response,
    (.finishEpoch request, .finish (.finishEpoch response)) ∈ notes →
      request.activeEpochIndex ≤ active ∧
      ∀ e, r request.activeEpochIndex = some e → e.state = .finished ∧ Returns e response

section Epochs

variable {r : UInt64 → Option EpochType} {active : UInt64} {notes : List (Rpc × Answer)}

omit [Keccak] in
theorem update_cases {i index : UInt64} {e : EpochType} {e' : Option EpochType}
    (h : Function.update r index e' i = some e) :
    (i = index ∧ e' = some e) ∨ (i ≠ index ∧ r i = some e) := by
  by_cases hi : i = index
  · rw [hi, Function.update_self] at h
    exact Or.inl ⟨hi, h⟩
  · rw [Function.update_of_ne hi] at h
    exact Or.inr ⟨hi, h⟩

omit [Keccak] in
/-- An answer that FinishEpoch did not send. -/
theorem EpochsOk.note (hI : EpochsOk r active notes) {rpc : Rpc} {a : Answer}
    (hrpc : ∀ request, rpc ≠ .finishEpoch request) : EpochsOk r active (notes ++ [(rpc, a)]) := by
  refine ⟨hI.present, hI.below, hI.one, hI.drained, fun request response h => ?_⟩
  rw [List.mem_append, List.mem_singleton] at h
  obtain h | h := h
  · exact hI.logged request response h
  · exact absurd (congrArg Prod.fst h).symm (hrpc request)

omit [Keccak] in
/-- An answer FinishEpoch sent for an epoch that it closed. -/
theorem EpochsOk.noteFinish (hI : EpochsOk r active notes) {request : FinishEpochRequest}
    {response : FinishEpochResponse} {e : EpochType}
    (he : r request.activeEpochIndex = some e) (hfin : e.state = .finished)
    (hret : Returns e response) :
    EpochsOk r active (notes ++ [(.finishEpoch request, .finish (.finishEpoch response))]) := by
  refine ⟨hI.present, hI.below, hI.one, hI.drained, fun req resp h => ?_⟩
  rw [List.mem_append, List.mem_singleton] at h
  obtain h | h := h
  · exact hI.logged req resp h
  · cases h
    refine ⟨hI.below _ _ he, fun e₁ h₁ => ?_⟩
    rw [he] at h₁
    cases h₁
    exact ⟨hfin, hret⟩

omit [Keccak] in
/-- Replacing the record of the open epoch, by one that is open or drained. -/
theorem EpochsOk.update (hI : EpochsOk r active notes) {e e' : EpochType}
    (he : r active = some e) (hstate : e.state = .active)
    (hdrained : e'.state = .finished → e'.pendingInputs = []) :
    EpochsOk (Function.update r active (some e')) active notes := by
  refine ⟨?_, fun i e₁ h => ?_, fun i e₁ h hs => ?_, fun i e₁ h hs => ?_, fun req resp h => ?_⟩
  · rw [Function.update_self]
    exact Option.some_ne_none e'
  · obtain ⟨rfl, -⟩ | ⟨-, h⟩ := update_cases h
    · exact UInt64.le_refl i
    · exact hI.below i e₁ h
  · obtain ⟨hi, -⟩ | ⟨-, h⟩ := update_cases h
    · exact hi
    · exact hI.one i e₁ h hs
  · obtain ⟨-, h⟩ | ⟨-, h⟩ := update_cases h
    · cases h
      exact hdrained hs
    · exact hI.drained i e₁ h hs
  · obtain ⟨hle, hret⟩ := hI.logged req resp h
    refine ⟨hle, fun e₁ h₁ => ?_⟩
    obtain ⟨hi, -⟩ | ⟨-, h₁⟩ := update_cases h₁
    · have hfin := (hret e (hi ▸ he)).1
      rw [hstate] at hfin
      cases hfin
    · exact hret e₁ h₁

omit [Keccak] in
/-- Starting the next epoch when the active one is closed. -/
theorem EpochsOk.next (hI : EpochsOk r active notes) (hmax : active ≠ 0xFFFFFFFFFFFFFFFF)
    {e e' : EpochType} (he : r active = some e) (hclosed : e.state = .finished)
    (hopen : e'.state = .active) :
    EpochsOk (Function.update r (active + 1) (some e')) (active + 1) notes := by
  refine ⟨?_, fun i e₁ h => ?_, fun i e₁ h hs => ?_, fun i e₁ h hs => ?_, fun req resp h => ?_⟩
  · rw [Function.update_self]
    exact Option.some_ne_none e'
  · obtain ⟨rfl, -⟩ | ⟨-, h⟩ := update_cases h
    · exact UInt64.le_refl _
    · exact UInt64.le_of_lt (lt_next_epoch (hI.below i e₁ h) hmax)
  · obtain ⟨hi, -⟩ | ⟨-, h⟩ := update_cases h
    · exact hi
    · rw [hI.one i e₁ h hs, he] at h
      cases h
      rw [hclosed] at hs
      cases hs
  · obtain ⟨-, h⟩ | ⟨-, h⟩ := update_cases h
    · cases h
      rw [hopen] at hs
      cases hs
    · exact hI.drained i e₁ h hs
  · obtain ⟨hle, hret⟩ := hI.logged req resp h
    have hlt := lt_next_epoch hle hmax
    refine ⟨UInt64.le_of_lt hlt, fun e₁ h₁ => ?_⟩
    rw [Function.update_of_ne (UInt64.ne_of_lt hlt)] at h₁
    exact hret e₁ h₁

omit [Keccak] in
/-- Deleting an epoch that is not the active one. -/
theorem EpochsOk.delete (hI : EpochsOk r active notes) {index : UInt64} (hne : active ≠ index) :
    EpochsOk (Function.update r index none) active notes := by
  have hat : ∀ i e₁, Function.update r index none i = some e₁ → r i = some e₁ := by
    intro i e₁ h
    obtain ⟨-, h⟩ | ⟨-, h⟩ := update_cases h
    · cases h
    · exact h
  refine ⟨?_, fun i e₁ h => ?_, fun i e₁ h hs => ?_, fun i e₁ h hs => ?_, fun req resp h => ?_⟩
  · rw [Function.update_of_ne hne]
    exact hI.present
  · exact hI.below i e₁ (hat i e₁ h)
  · exact hI.one i e₁ (hat i e₁ h) hs
  · exact hI.drained i e₁ (hat i e₁ h) hs
  · obtain ⟨hle, hret⟩ := hI.logged req resp h
    exact ⟨hle, fun e₁ h₁ => hret e₁ (hat _ e₁ h₁)⟩

end Epochs

omit [Keccak] in
theorem treeChange_state {g : EpochType → EpochType} (hg : TreeChange g) (e : EpochType) :
    (g e).state = e.state ∧ (g e).pendingInputs = e.pendingInputs ∧
      (g e).processedInputs = e.processedInputs := by
  rw [hg e]
  exact ⟨rfl, rfl, rfl⟩

omit [Keccak] in
/-- What FinishEpoch knows when it goes on without waiting. -/
theorem FinishReady.facts {request : FinishEpochRequest} {v : View} {e : EpochType} {ph : Phase}
    (hready : FinishReady request v e ph) (he : v.records request.activeEpochIndex = some e)
    (hph : ph.Holds v) :
    e.state = .active ∧ e.pendingInputs = [] ∧ v.active ≠ 0xFFFFFFFFFFFFFFFF := by
  cases hready with
  | atOnce hlock htaint hmax hdir hstate hpend => exact ⟨hstate, hpend, hmax⟩
  | afterStore =>
      obtain ⟨hindex, hmax, e', he', hstate, hpend⟩ := hph
      rw [he] at he'
      cases he'
      exact ⟨hstate, hpend, hmax⟩

/-- The epochs after a record step. -/
theorem epochsOk_step {rpc : Rpc} {ph : Phase} {v v' : View} (hstep : RecordStep rpc ph v v')
    (hI : EpochsOk v.records v.active v.notes) (hph : ph.Holds v) :
    EpochsOk v'.records v'.active v'.notes := by
  cases hstep with
  | quiet hrec hactive hcount hmcycle hnotes =>
      rw [hrec, hactive, hnotes]
      exact hI
  | @tree index number stage g hg hph' hrec hactive hcount hmcycle hnotes =>
      rw [hph'] at hph
      obtain ⟨rfl, -, e, he, hstate, hpend⟩ := hph
      rw [hrec, hactive, hnotes, he, Option.map_some]
      refine hI.update he hstate fun hfin => ?_
      rw [(treeChange_state hg e).1, hstate] at hfin
      cases hfin
  | @record index number stage e vt nt hash i hph' he hi hrec hactive hcount hnotes =>
      rw [hph'] at hph
      obtain ⟨rfl, -, e', he', hstate, hpend⟩ := hph
      rw [he] at he'
      cases he'
      rw [hrec, hactive, hnotes]
      refine hI.update he hstate fun hfin => ?_
      have hopen : (recorded vt nt hash i e).state = .active := hstate
      rw [hopen] at hfin
      cases hfin
  | @accept request e input hrpc hph' hlock htaint hindex he hstate hnumber hcurrent hinput hrec
      hactive hcount hmcycle hnotes =>
      rw [hrec, hactive, hnotes]
      refine (hI.update he hstate fun hfin => ?_).note fun _ => Rpc.noConfusion
      have hopen : ({ e with pendingInputs := e.pendingInputs ++ [input] } : EpochType).state =
          .active := hstate
      rw [hopen] at hfin
      cases hfin
  | delete hrpc hph' hlock he hstate hne hrec hactive hcount hmcycle hnotes =>
      rw [hrec, hactive, hnotes]
      exact (hI.delete hne).note fun _ => Rpc.noConfusion
  | @finish request e hrpc hready he hrec hactive hcount hmcycle hnotes =>
      obtain ⟨hstate, hpend, hmax⟩ := hready.facts he hph
      have hindex := hI.one _ _ he hstate
      have hnew : request.activeEpochIndex ≠ v.active + 1 :=
        UInt64.ne_of_lt (lt_next_epoch (hI.below _ _ he) hmax)
      rw [hrec, hactive]
      rw [hrec] at hnotes
      unfold startedRecords at hnotes ⊢
      rw [hindex] at he hnotes hnew ⊢
      -- first the epoch is closed, then the next one is started
      have hclosed : EpochsOk (Function.update v.records v.active (some (finishedEpoch e).1))
          v.active v.notes := hI.update he hstate fun _ => hpend
      have hnext : EpochsOk (startedRecords v.records v.active v.active e) (v.active + 1) v.notes :=
        hclosed.next hmax (Function.update_self ..) rfl rfl
      unfold startedRecords at hnext
      obtain hsame | ⟨e', response, he', hret, happ⟩ := hnotes
      · rw [hsame]
        exact hnext
      · rw [happ]
        refine hnext.noteFinish (hindex.symm ▸ he') ?_ hret
        rw [Function.update_of_ne hnew, Function.update_self] at he'
        cases he'
        rfl
  | spoil hrpc hready he hrec hactive hcount hmcycle hnotes =>
      obtain ⟨hstate, hpend, hmax⟩ := hready.facts he hph
      have hindex := hI.one _ _ he hstate
      rw [hrec, hactive, hnotes, hindex]
      rw [hindex] at he
      exact hI.update he hstate fun _ => hpend
  | missing he => exact absurd he hI.present

omit [Keccak] in
/-- A fresh session has one epoch, which is open and empty. -/
theorem epochsOk_fresh {v : View} {e : EpochType} (hv : FreshView v e) :
    EpochsOk v.records v.active v.notes := by
  rw [hv.records, hv.notes]
  have hat : ∀ i e₁, Function.update (fun _ => none) v.active (some (clearQuery e)) i = some e₁ →
      i = v.active ∧ e₁ = clearQuery e := by
    intro i e₁ h
    obtain ⟨hi, h⟩ | ⟨-, h⟩ := update_cases h
    · exact ⟨hi, (Option.some.inj h).symm⟩
    · cases h
  refine ⟨?_, fun i e₁ h => ?_, fun i e₁ h _ => (hat i e₁ h).1, fun i e₁ h _ => ?_,
    fun _ _ h => absurd h List.not_mem_nil⟩
  · rw [Function.update_self]
    exact Option.some_ne_none _
  · exact (hat i e₁ h).1 ▸ UInt64.le_refl i
  · rw [(hat i e₁ h).2]
    exact hv.pending

/-! ### Phases -/

omit [Keccak] in
/-- Closed epochs are drained, so an epoch with a pending input is the active
    one. -/
theorem EpochsOk.open_of_pending {r : UInt64 → Option EpochType} {active : UInt64}
    {notes : List (Rpc × Answer)} (hI : EpochsOk r active notes) {i : UInt64} {e : EpochType}
    (he : r i = some e) (hpend : e.pendingInputs ≠ []) : i = active ∧ e.state = .active := by
  have hstate : e.state = .active := by
    cases hs : e.state with
    | active => rfl
    | finished => exact absurd (hI.drained i e he hs) hpend
  exact ⟨hI.one i e he hstate, hstate⟩

omit [Keccak] in
theorem starts_holds {h : HandlerId} {rpc : Rpc} {ph ph' : Phase} {v v' : View}
    (hs : Starts h rpc ph v ph' v') (hI : EpochsOk v.records v.active v.notes)
    (hph : ph.Holds v) : ph'.Holds v' := by
  cases hs with
  | accepted hlock he hlen hproc =>
      have hpend : (clearQuery _).pendingInputs ≠ [] := List.ne_nil_of_length_eq_add_one hlen
      obtain ⟨hi, hstate⟩ := hI.open_of_pending (records_some he) hpend
      exact ⟨hi, rfl, _, records_some he, hstate, hpend⟩
  | handedOff he hpend =>
      obtain ⟨hi, hstate⟩ := hI.open_of_pending (records_some he) hpend
      exact ⟨hi, rfl, _, records_some he, hstate, hpend⟩
  | @recorded _ _ index number _ e f _ he hf hq hpend =>
      obtain ⟨hi, -, e', he', hstate, -⟩ := hph
      have hfe : (v.mapEpoch index f).records index = some (clearQuery (f e)) := by
        rw [records_mapEpoch, Function.update_self, he]
        rfl
      refine ⟨hi, rfl, clearQuery (f e), hfe, ?_, hpend⟩
      rw [records_some he] at he'
      cases he'
      obtain ⟨i, -, hfe⟩ := hf e
      rw [hfe]
      exact hstate
  | inspect => trivial
  | queued => trivial

omit [Keccak] in
/-- What a handler relies on does not depend on the rest of the view. -/
theorem Phase.Holds.congr {v v' : View} {ph : Phase} (hph : ph.Holds v)
    (hrec : v'.records = v.records) (hactive : v'.active = v.active) (hcount : v'.count = v.count) :
    ph.Holds v' := by
  cases ph with
  | storing index => exact ⟨hactive ▸ hph.1, hactive ▸ hph.2.1, hrec ▸ hph.2.2⟩
  | advancing index number stage => exact ⟨hactive ▸ hph.1, hcount ▸ hph.2.1, hrec ▸ hph.2.2⟩
  | _ => trivial

theorem finishes_holds {request : FinishEpochRequest} {v v' v'' : View} {e : EpochType}
    {ph : Phase} (hf : Finishes request v e ph v') : ph.Holds v'' := by
  cases hf <;> trivial

theorem taints_holds {h : HandlerId} {v v' v'' : View} {t : Option Phase} (ht : Taints h v t v') :
    ∀ ph, t = some ph → ph.Holds v'' := by
  intro ph hph
  cases ht with
  | quiet => cases hph
  | missing => cases hph
  | handOver => cases hph; trivial

/-- The phase a handler parks in is one it can rely on. -/
theorem trans_holds {h : HandlerId} {rpc : Rpc} {ph : Phase} {v v' : View} {t : Option Phase}
    (hstep : Trans h rpc ph v t v') (hI : EpochsOk v.records v.active v.notes)
    (hph : ph.Holds v) : ∀ ph', t = some ph' → ph'.Holds v' := by
  intro ph' ht
  cases hstep with
  | store hlock htaint hmax hdir he hstate hpend =>
      cases ht
      exact ⟨hI.one _ _ (records_some he) hstate, hmax, _, records_some he, hstate, hpend⟩
  | finish _ _ _ _ _ _ _ hf => cases ht; exact finishes_holds hf
  | stored _ hf => cases ht; exact finishes_holds hf
  | start hs => cases ht; exact starts_holds hs hI hph
  | acceptedTaint _ htaint => exact taints_holds htaint ph' ht
  | @advance _ _ index number _ _ _ _ hf hw =>
      cases ht
      obtain ⟨g, hg, hrec⟩ := records_tree v index hf
      obtain ⟨hi, hnumber, e, he, hstate, hpend⟩ := hph
      obtain ⟨hs, hp, -⟩ := treeChange_state hg e
      refine ⟨hi, hnumber, g e, ?_, hs.trans hstate, hp ▸ hpend⟩
      refine (congrFun hrec index).trans ?_
      rw [Function.update_self, he]
      rfl
  | advanceTaint _ htaint => exact taints_holds htaint ph' ht
  | _ => cases ht <;> trivial

/-- What a parked handler relies on, others do not break: FinishEpoch in the
    store call is protected by the lock, and AdvanceState inside a transaction by
    the processing lock and by the input it has in the queue. -/
theorem holds_elsewhere {rpc : Rpc} {ph phk : Phase} {v v' : View}
    (hstep : RecordStep rpc ph v v') (hI : EpochsOk v.records v.active v.notes) (hph : ph.Holds v)
    (hlock : ∀ j, phk = .storing j → v.lock = true ∧ ∀ j', ph ≠ .storing j')
    (hproc : phk.processing = true → ph.processing = false) (hphk : phk.Holds v) :
    phk.Holds v' := by
  -- two handlers that work on inputs, or FinishEpoch beside one, cannot be
  have hworks : ∀ {index number stage}, ph = .advancing index number stage →
      (∀ j, phk ≠ .storing j) ∧ ∀ j n s, phk ≠ .advancing j n s := by
    rintro index number stage rfl
    refine ⟨?_, ?_⟩
    · rintro j rfl
      obtain ⟨rfl, -, e, he, -, hpend⟩ := hphk
      obtain ⟨rfl, -, e', he', -, hpend'⟩ := hph
      rw [he] at he'
      cases he'
      exact hpend' hpend
    · rintro j n s rfl
      cases hproc rfl
  -- FinishEpoch is alone, and so are those that find the session unlocked
  have hfree : v.lock = false → ∀ j, phk ≠ .storing j := by
    intro hl j hj
    rw [(hlock j hj).1] at hl
    cases hl
  have hready : ∀ {request e}, FinishReady request v e ph →
      v.records request.activeEpochIndex = some e →
      (∀ j, phk ≠ .storing j) ∧ ∀ j n s, phk ≠ .advancing j n s := by
    intro request e hr he
    obtain ⟨hstate, hpend, -⟩ := hr.facts he hph
    refine ⟨?_, ?_⟩
    · cases hr with
      | atOnce hl => exact hfree hl
      | afterStore => exact fun j hj => (hlock j hj).2 _ rfl
    · rintro j n s rfl
      obtain ⟨rfl, -, e', he', -, hpend'⟩ := hphk
      rw [hI.one _ _ he hstate, he'] at he
      cases he
      exact hpend' hpend
  have hother : (∀ j, phk ≠ .storing j) ∧ (∀ j n s, phk ≠ .advancing j n s) → phk.Holds v' := by
    rintro ⟨h₁, h₂⟩
    cases phk with
    | storing j => exact absurd rfl (h₁ j)
    | advancing j n s => exact absurd rfl (h₂ j n s)
    | _ => trivial
  cases hstep with
  | quiet hrec hactive hcount => exact hphk.congr hrec hactive hcount
  | tree hg hph' => exact hother (hworks hph')
  | record hph' => exact hother (hworks hph')
  | @accept request e input hrpc hph' hl htaint hindex he hstate hnumber hcurrent hinput hrec
      hactive hcount =>
      cases phk with
      | storing j => exact absurd rfl (hfree hl j)
      | advancing j n s =>
          obtain ⟨rfl, hn, -⟩ := hphk
          refine ⟨hactive.symm, hcount ▸ hn,
            { e with pendingInputs := e.pendingInputs ++ [input] }, ?_, hstate,
            List.append_ne_nil_of_right_ne_nil _ (List.cons_ne_nil input [])⟩
          rw [hrec, Function.update_self]
      | _ => trivial
  | @delete index e hrpc hph' hl he hstate hne hrec hactive hcount =>
      cases phk with
      | storing j => exact absurd rfl (hfree hl j)
      | advancing j n s =>
          obtain ⟨rfl, hn, e', he', hrest⟩ := hphk
          refine ⟨hactive.symm, hcount ▸ hn, e', ?_, hrest⟩
          rw [hrec, Function.update_of_ne hne]
          exact he'
      | _ => trivial
  | finish hrpc hr he => exact hother (hready hr he)
  | spoil hrpc hr he => exact hother (hready hr he)
  | missing he => exact absurd he hI.present

/-- Only FinishEpoch with a storage directory gets to the store call. -/
theorem trans_unstored {h : HandlerId} {rpc : Rpc} {ph : Phase} {v v' : View} {j : UInt64}
    (hstep : Trans h rpc ph v (some (.storing j)) v') :
    ph = .fresh ∧ ∃ request, rpc = .finishEpoch request ∧ request.storageDirectory ≠ "" := by
  cases hstep with
  | store _ _ _ hdir => exact ⟨rfl, _, rfl, hdir⟩
  | finish _ _ _ _ _ _ _ hf => cases hf
  | stored _ hf => cases hf
  | start hs => cases hs
  | acceptedTaint _ ht => cases ht
  | advanceTaint _ ht => cases ht

/-! ### The invariant -/

/-- Inputs are worked on by one handler, the epochs are in order, and nobody
    relies on anything that is not so. -/
structure WorkInv (φ : HandlerId → Option Phase) (v : View) : Prop where
  processing : ProcessingInv φ v
  epochs : EpochsOk v.records v.active v.notes
  holds : ∀ k ph, φ k = some ph → ph.Holds v

omit [Keccak] in
theorem workInv_fresh {v : View} {e : EpochType} (hv : FreshView v e) :
    WorkInv (fun _ => none) v :=
  ⟨guarded_idle, epochsOk_fresh hv, fun _ _ h => (Option.some_ne_none _ h.symm).elim⟩

section Turns

variable {w : Manager} {φ φ' : HandlerId → Option Phase} {e : Event} {i : HandlerId} {rpc : Rpc}
  {ph : Phase} {v₀ v' : View} {t : Option Phase}

/-- The invariant, for the view a handler begins to run with. -/
theorem WorkInv.enter (hI : WorkInv φ (View.of w.shared)) (henters : Enters w φ e i rpc ph v₀) :
    WorkInv φ v₀ ∧ ph.Holds v₀ := by
  have hv : WorkInv φ v₀ := by
    refine ⟨⟨?_, hI.processing.unique⟩, ?_, fun k phk hφ => ?_⟩
    · rw [henters.processing]; exact hI.processing.set
    · rw [henters.records, henters.active, henters.notes]; exact hI.epochs
    · exact (hI.holds k phk hφ).congr henters.records henters.active henters.count
  refine ⟨hv, ?_⟩
  obtain hφ | ⟨-, rfl⟩ := henters.before
  · exact hv.holds i ph hφ
  · trivial

/-- A turn keeps the invariant, if FinishEpoch in the store call is protected by
    the lock. -/
theorem turn_work (hturn : Turn w φ e i rpc ph v₀ t φ' v') (hI : WorkInv φ (View.of w.shared))
    (hlock : ∀ k, k ≠ i → ∀ j, φ k = some (.storing j) →
      (View.of w.shared).lock = true ∧ ∀ j', ph ≠ .storing j') : WorkInv φ' v' := by
  obtain ⟨hv₀, hph⟩ := hI.enter hturn.enters
  have hrec := trans_records hturn.trans
  refine ⟨turn_processing hturn hI.processing, epochsOk_step hrec hv₀.epochs hph,
    fun k phk hφ => ?_⟩
  by_cases hk : k = i
  · rw [hk, hturn.after] at hφ
    exact trans_holds hturn.trans hv₀.epochs hph phk hφ
  · obtain hsame | ⟨hnone, -⟩ := hturn.others k hk
    · rw [hsame] at hφ
      refine holds_elsewhere hrec hv₀.epochs hph ?_ (fun hproc => ?_) (hv₀.holds k phk hφ)
      · rintro j rfl
        rw [hturn.enters.lock]
        exact hlock k hk j hφ
      · by_contra hph'
        rw [Bool.not_eq_false] at hph'
        exact hk (hv₀.processing.unique k i (phaseIn_of hφ hproc)
          ((hturn.enters.inside rfl).2 hph'))
    · rw [hnone] at hφ
      cases hφ

/-- Without a FinishEpoch that has a storage directory, nobody is in the store
    call. -/
theorem turn_unstored (hturn : Turn w φ e i rpc ph v₀ t φ' v')
    (hrpc : ph = .fresh → ∀ request, rpc = .finishEpoch request → request.storageDirectory = "")
    (hI : ∀ k j, φ k ≠ some (.storing j)) : ∀ k j, φ' k ≠ some (.storing j) := by
  intro k j hφ
  by_cases hk : k = i
  · rw [hk, hturn.after] at hφ
    rcases trans_unstored (hφ ▸ hturn.trans) with ⟨hph, request, hreq, hdir⟩
    exact hdir (hrpc hph request hreq)
  · rcases hturn.others k hk with hsame | ⟨hnone, -⟩
    · exact hI k j (hsame ▸ hφ)
    · rw [hnone] at hφ
      cases hφ

end Turns

end ServerManager
