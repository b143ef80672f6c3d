import Mathlib
import ServerManager.Theory.Queue

/-!
# Handing the Machine Over

Between two inputs, `process_pending_inputs` lets a query in. The query names
the coroutine of the InspectState that waits; the handler puts it in the
completion queue, names itself in its place and parks. When InspectState is
done, it puts the handler it found in the query back in the completion queue.

A handler that is parked like this is named in one place at a time: in the
completion queue, in the query, or by the InspectState that will put it back.
`HandStep` is what a segment does to these names, and `Tokens` that there is
one for each. An InspectState that fails leaves its query behind, and then
names can be left of handlers that are gone. No query is answered after that,
so nothing is claimed then.

## Main definitions

* `View.holder`: The coroutine named in the query.
* `Phase.slot`, `Slot`: The coroutine InspectState will put back.
* `HandStep`: What a segment does to the names.
* `Tokens`: Every name is there once, and is that of a parked handler.
* `Phase.Asked`: The query of an InspectState is there.

## Theorems

* `trans_hand`: Every step is such a step.
* `enter_tokens`: A handler that runs is not named any more.
* `turn_asked`, `turn_tokens`: A turn keeps the queries and the names.
* `turn_live`: A query that nobody asks for any more stays that way.
-/

namespace ServerManager

open Coroutine

variable [Keccak]

/-! ### The coroutine in the query -/

/-- The coroutine named in the pending query of the active epoch. -/
def View.holder (v : View) : Option (Option HandlerId) :=
  ((v.epochs v.active).bind EpochType.pendingQuery).map QueryType.coroutine

section Holder

variable {v : View}

omit [Keccak] in
theorem holder_of {e : EpochType} (he : v.epochs v.active = some e) :
    v.holder = e.pendingQuery.map QueryType.coroutine := by
  unfold View.holder
  rw [he]
  rfl

omit [Keccak] in
/-- A change of an epoch that leaves the coroutine alone. -/
theorem holder_mapEpoch (v : View) (index : UInt64) (f : EpochType → EpochType)
    (hf : ∀ e, (f e).pendingQuery.map QueryType.coroutine =
      e.pendingQuery.map QueryType.coroutine) : (v.mapEpoch index f).holder = v.holder := by
  unfold View.holder View.mapEpoch
  by_cases hi : v.active = index
  · simp only [hi, Function.update_self]
    cases v.epochs index with
    | none => rfl
    | some e => exact hf e
  · simp only [Function.update_of_ne hi]

omit [Keccak] in
theorem holder_tree (v : View) (index : UInt64) {f : EpochType → EpochType} (hf : TreeChange f) :
    (v.mapEpoch index f).holder = v.holder := holder_mapEpoch v index f fun e => by rw [hf e]

omit [Keccak] in
theorem holder_record (v : View) (index : UInt64) {number : UInt64} {f : EpochType → EpochType}
    (hf : RecordChange number f) : (v.mapEpoch index f).holder = v.holder :=
  holder_mapEpoch v index f fun e => by rw [recordChange_query hf e]

omit [Keccak] in
theorem holder_query (v : View) (index : UInt64) {f : EpochType → EpochType}
    (hf : QueryChange f) : (v.mapEpoch index f).holder = v.holder :=
  holder_mapEpoch v index f fun e => (hf e).2

omit [Keccak] in
theorem holder_active (f : EpochType → EpochType) {e : EpochType}
    (he : v.epochs v.active = some e) :
    (v.mapEpoch v.active f).holder = (f e).pendingQuery.map QueryType.coroutine := by
  refine holder_of ?_
  show Function.update v.epochs v.active ((v.epochs v.active).map f) v.active = some (f e)
  rw [Function.update_self, he, Option.map_some]

end Holder

theorem Enters.holder {w : Manager} {φ : HandlerId → Option Phase} {e : Event} {i : HandlerId}
    {rpc : Rpc} {ph : Phase} {v₀ : View} (henters : Enters w φ e i rpc ph v₀) :
    v₀.holder = (View.of w.shared).holder := by
  unfold View.holder
  rw [henters.epochs, henters.active]

namespace Phase

/-- Parked until somebody puts its name in the completion queue. -/
def parked : Phase → Bool
  | .handedOff _ | .queued _ => true
  | _ => false

/-- The coroutine InspectState will put in the completion queue when it is
    done. As long as it is parked, that is the one in the query. -/
def slot (holder : Option (Option HandlerId)) : Phase → Option HandlerId
  | .queued _ => holder.join
  | .inspecting _ coroutine _ => coroutine
  | .inspected coroutine => coroutine
  | _ => none

end Phase

/-- What a segment does to the names of the handlers that are parked. -/
inductive HandStep (i : HandlerId) (ph : Phase) (v : View) (t : Option Phase) (v' : View) : Prop
  /-- Nothing. -/
  | still (hq : v'.queue = v.queue) (hh : v'.holder = v.holder) (hph : ph.asking = false)
      (hout : t.any Phase.parked = false) (hask : t.any Phase.asking = false)
      (hslot : ∀ c, (t.bind fun p => p.slot c) = none) (hleft : t ≠ some .leaving)
  /-- InspectState parks behind the inputs, and puts itself in its query. -/
  | queue (hph : ph = .fresh) (ht : t = some (.queued v.active)) (hlock : v.lock = false)
      (hnone : v.holder = none) (hh : v'.holder = some (some i)) (hq : v'.queue = v.queue)
      (hclean : v.tainted = false)
  /-- InspectState finds no input, and nobody to wait for. -/
  | direct (hph : ph = .fresh) (ht : t = some (.inspecting v.active none .snapshot))
      (hlock : v.lock = false) (hnone : v.holder = none) (hempty : v.inputs = [])
      (hh : v'.holder = some none) (hq : v'.queue = v.queue) (hclean : v.tainted = false)
  /-- InspectState goes on, and knows whom to put back. -/
  | carry {ph' : Phase} (hph : ph.asking = true) (ht : t = some ph') (hout : ph'.parked = false)
      (hleft : ph' ≠ .leaving)
      (hslot : ph'.slot v'.holder = ph.slot v.holder) (hq : v'.queue = v.queue)
      (hh : (v'.holder = v.holder ∧ ph'.asking = true) ∨
        (v'.holder = none ∧ ph'.asking = false))
  /-- InspectState is done, and puts the coroutine back. -/
  | give {m : Option HandlerId} (hph : ph = .inspected m) (ht : t = none)
      (hh : v'.holder = v.holder) (hq : v'.queue = v.queue ++ m.toList.map some)
  /-- The machine is handed over to the query. -/
  | park {index number : UInt64} {stage : Stage} {c : Option HandlerId}
      (hph : ph = .advancing index number stage) (ht : t = some (.handedOff index))
      (hh : v.holder = some c) (hh' : v'.holder = some (some i)) (hq : v'.queue = v.queue ++ [c])
  /-- InspectState fails, and leaves its query behind. -/
  | drop (hph : ph.asking = true) (ht : t = some .refused) (hout : t.any Phase.parked = false)
      (hask : t.any Phase.asking = false) (hh : v'.holder = v.holder)
  /-- AdvanceState taints the session, and a query that is parked goes on. -/
  | taint (htaint : v'.tainted = true) (hph : ph.ack = true ∨ ph.transaction = true)
      (hnot : ph.asking = false) (hout : t.any Phase.parked = false)
      (hask : t.any Phase.asking = false)
      (hh : (v'.holder = v.holder ∧ v'.queue = v.queue ∧ t = none) ∨ (t = some .leaving ∧
        ∃ c, v.holder = some c ∧ v'.holder = some (some i) ∧ v'.queue = v.queue ++ [c]))

theorem taints_hand {i : HandlerId} {ph : Phase} {v v₁ v' : View} {t : Option Phase}
    (ht : Taints i v₁ t v') (hpresent : v₁.epochs v₁.active ≠ none)
    (hph : ph.ack = true ∨ ph.transaction = true) (hnot : ph.asking = false)
    (hh : v₁.holder = v.holder) (hq : v₁.queue = v.queue) : HandStep i ph v t v' := by
  cases ht with
  | quiet => exact .taint rfl hph hnot rfl rfl (Or.inl ⟨hh, hq, rfl⟩)
  | missing he => exact absurd he hpresent
  | @handOver e q he hquery =>
      refine .taint rfl hph hnot rfl rfl (Or.inr ⟨rfl, q.coroutine, ?_, ?_, by rw [← hq]⟩)
      · rw [← hh, holder_of he, hquery]
        rfl
      · refine (holder_active (setCoroutine i) he).trans ?_
        show (Option.map _ _).map _ = _
        rw [hquery]
        rfl

omit [Keccak] in
theorem wake_queue (v : View) (m : Option HandlerId) :
    (v.wake m).queue = v.queue ++ m.toList.map some := by
  cases m with
  | none => exact (List.append_nil _).symm
  | some g => rfl

omit [Keccak] in
theorem wake_holder (v : View) (m : Option HandlerId) : (v.wake m).holder = v.holder := by
  cases m <;> rfl

omit [Keccak] in
theorem starts_hand {i : HandlerId} {rpc : Rpc} {ph ph' : Phase} {v v' : View}
    (hs : Starts i rpc ph v ph' v') (hsingle : ∀ j e, v.records j = some e → j = v.active) :
    HandStep i ph v (some ph') v' := by
  cases hs with
  | accepted => exact .still rfl rfl rfl rfl rfl (fun _ => rfl) (by simp)
  | handedOff => exact .still rfl rfl rfl rfl rfl (fun _ => rfl) (by simp)
  | recorded he hf => exact .still rfl (holder_record v _ hf) rfl rfl rfl (fun _ => rfl) (by simp)
  | @inspect _ _ e q hlock htaint he hq hpend hco =>
      refine .direct rfl rfl hlock ?_ ?_ ?_ rfl htaint
      · rw [holder_of he, hq]
        rfl
      · rw [inputs_of_record (records_some he)]
        exact hpend
      · refine (holder_active (setQuery q) he).trans ?_
        show some q.coroutine = _
        rw [hco]
  | @queued _ _ index e q f htaint he hq hf =>
      have hi := hsingle _ _ (records_some he)
      subst hi
      have hh := holder_of he
      refine .carry rfl rfl rfl Phase.noConfusion ?_ rfl (Or.inl ⟨holder_query v v.active hf, rfl⟩)
      show q.coroutine = v.holder.join
      rw [hh, hq]
      rfl

/-- Every step of a session with one epoch does one of these to the names. -/
theorem trans_hand {i : HandlerId} {rpc : Rpc} {ph : Phase} {v v' : View} {t : Option Phase}
    (hstep : Trans i rpc ph v t v') (hsolo : Solo rpc ph) (hpresent : v.records v.active ≠ none)
    (hsingle : ∀ j e, v.records j = some e → j = v.active) : HandStep i ph v t v' := by
  have hthere : v.epochs v.active ≠ none := fun he => hpresent (by
    unfold View.records
    rw [he]
    rfl)
  cases hstep with
  | delete => exact absurd rfl (hsolo.ne_delete _)
  | store => exact absurd rfl (hsolo.ne_finish _)
  | finish => exact absurd rfl (hsolo.ne_finish _)
  | stored => exact absurd rfl (hsolo.unstored _)
  | storeFailed => exact absurd rfl (hsolo.unstored _)
  | start hs => exact starts_hand hs hsingle
  | @accept request _ e input =>
      have hh : (v.mapEpoch v.active fun e => { e with
          pendingInputs := e.pendingInputs ++ [input] }).holder = v.holder :=
        holder_mapEpoch v v.active _ fun _ => rfl
      exact .still rfl hh rfl rfl rfl (fun _ => rfl) (by simp)
  | acceptedTaint hwhy ht => exact taints_hand ht hthere (Or.inl rfl) rfl rfl rfl
  | @advance _ _ index _ _ stage' f _ hf hw =>
      have hh : (v.mapEpoch index f).holder = v.holder := holder_tree v index hf
      exact .still rfl hh rfl rfl rfl (fun _ => rfl) (by simp)
  | @advanceTaint _ _ _ index _ _ _ f hf ht =>
      refine taints_hand ht ?_ (Or.inr rfl) rfl (holder_tree v index hf) rfl
      show Function.update v.epochs index ((v.epochs index).map f) v.active ≠ none
      by_cases hi : v.active = index
      · rw [← hi, Function.update_self]
        exact fun hnone => hthere (Option.map_eq_none_iff.1 hnone)
      · rw [Function.update_of_ne hi]
        exact hthere
  | @advanceFail _ _ index _ _ _ f hf hstub =>
      have hh : (v.mapEpoch index f).holder = v.holder := holder_tree v index hf
      exact .still rfl hh rfl rfl rfl (fun _ => rfl) (by simp)
  | @advancePark _ _ index number _ e q f _ he hf hq =>
      have hi := hsingle _ _ (records_some he)
      subst hi
      refine .park rfl rfl ?_ ?_ rfl
      · rw [holder_of he, hq]
        rfl
      · have hh : (v.mapEpoch v.active fun e => setCoroutine i (f e)).holder =
            (setCoroutine i (f e)).pendingQuery.map QueryType.coroutine := holder_active _ he
        refine hh.trans ?_
        show (Option.map _ (f e).pendingQuery).map _ = _
        rw [recordChange_query hf, hq]
        rfl
  | @advanceExit _ _ index _ _ _ f _ he hf hq hpend =>
      have hh : (v.mapEpoch index f).holder = v.holder := holder_record v index hf
      exact .still rfl hh rfl rfl rfl (fun _ => rfl) (by simp)
  | @queue _ _ e q hlock htaint he hq hpend hco =>
      refine .queue rfl rfl hlock ?_ ?_ rfl htaint
      · rw [holder_of he, hq]
        rfl
      · refine (holder_active (setQuery q) he).trans ?_
        show some q.coroutine = _
        rw [hco]
  | @queuedQuick _ _ index e q _ htaint he hq =>
      have hi := hsingle _ _ (records_some he)
      subst hi
      refine .carry rfl rfl rfl Phase.noConfusion ?_ rfl (Or.inr ⟨holder_active clearQuery he, rfl⟩)
      show q.coroutine = v.holder.join
      rw [holder_of he, hq]
      rfl
  | queuedRefuse => exact .drop rfl rfl rfl rfl (wake_holder v _)
  | @inspect _ _ index coroutine stage stage' f _ hf hw =>
      have hh : (v.mapEpoch index f).holder = v.holder := holder_query v index hf
      exact .carry rfl rfl rfl Phase.noConfusion rfl rfl (Or.inl ⟨hh, rfl⟩)
  | @inspectFail _ _ index coroutine _ _ f _ hf hstub =>
      have hh : (v.mapEpoch index f).holder = v.holder := holder_query v index hf
      exact .drop rfl rfl rfl rfl ((wake_holder (v.mapEpoch index f) coroutine).trans hh)
  | @inspectDone _ _ index coroutine stage _ e q he hq =>
      have hi := hsingle _ _ (records_some he)
      subst hi
      exact .carry rfl rfl rfl Phase.noConfusion rfl rfl (Or.inr ⟨holder_active clearQuery he, rfl⟩)
  | inspected => exact .give rfl rfl (wake_holder v _) (wake_queue v _)
  | _ => exact .still rfl rfl rfl rfl rfl (fun _ => rfl) (by simp)

/-! ### Names -/

/-- Some InspectState will put `h` in the completion queue when it is done. -/
def Slot (φ : HandlerId → Option Phase) (v : View) (h : HandlerId) : Prop :=
  ∃ k ph, φ k = some ph ∧ ph.slot v.holder = some h

/-- Every name is that of a parked handler, and is there once. -/
structure Tokens (φ : HandlerId → Option Phase) (v : View) : Prop where
  queue : ∀ h, some h ∈ v.queue → PhaseIn Phase.parked φ h
  once : ∀ h, v.queue.count (some h) ≤ 1
  slot : ∀ h, Slot φ v h → PhaseIn Phase.parked φ h ∧ some h ∉ v.queue

/-- Every name is that of a parked handler other than `i`. -/
structure Loose (i : HandlerId) (φ : HandlerId → Option Phase) (v : View) : Prop where
  queue : ∀ h, some h ∈ v.queue → PhaseIn Phase.parked φ h ∧ h ≠ i
  once : ∀ h, v.queue.count (some h) ≤ 1
  slot : ∀ h, Slot φ v h → PhaseIn Phase.parked φ h ∧ some h ∉ v.queue ∧ h ≠ i

omit [Keccak] in
theorem not_parked_of {φ : HandlerId → Option Phase} {i : HandlerId} {ph : Phase}
    (hφ : φ i = some ph) (hph : ph.parked = false) : ¬ PhaseIn Phase.parked φ i := by
  unfold PhaseIn
  rw [hφ, Option.any_some, hph]
  exact Bool.false_ne_true

omit [Keccak] in
/-- Who is not parked is not named. -/
theorem Tokens.loose {φ : HandlerId → Option Phase} {v : View} (hT : Tokens φ v) {i : HandlerId}
    (hi : ¬ PhaseIn Phase.parked φ i) : Loose i φ v := by
  refine ⟨fun h hh => ⟨hT.queue h hh, ?_⟩, hT.once, fun h hh => ?_⟩
  · rintro rfl
    exact hi (hT.queue h hh)
  · rcases hT.slot h hh with ⟨hparked, hout⟩
    refine ⟨hparked, hout, ?_⟩
    rintro rfl
    exact hi hparked

omit [Keccak] in
theorem count_eraseIdx_lt {queue : List (Option HandlerId)} {j : Nat} {x y : Option HandlerId}
    (hj : queue[j]? = some x) :
    (queue.eraseIdx j).count y + (if x = y then 1 else 0) = queue.count y := by
  rcases List.getElem?_eq_some_iff.1 hj with ⟨hlt, rfl⟩
  rw [← (List.getElem_cons_eraseIdx_perm hlt).count_eq y, List.count_cons]
  simp

omit [Keccak] in
theorem count_append_single {queue : List (Option HandlerId)} {g : HandlerId}
    (honce : ∀ h : HandlerId, queue.count (some h) ≤ 1) (hout : some g ∉ queue) (h : HandlerId) :
    queue.count (some h) + [some g].count (some h) ≤ 1 := by
  by_cases hh : g = h
  · subst hh
    rw [List.count_eq_zero.2 hout]
    simp
  · have hne : ¬ (some g == some h) = true := by simpa using hh
    rw [List.count_singleton, if_neg hne]
    exact honce h

section Turns

variable {w : Manager} {φ φ' : HandlerId → Option Phase} {e : Event} {i : HandlerId} {rpc : Rpc}
  {ph : Phase} {v₀ v' : View} {t : Option Phase}

/-- A handler that runs is not named any more: either it was not parked, or it
    came out of the completion queue, where its name was. -/
theorem enter_tokens (hT : Tokens φ (View.of w.shared)) (henters : Enters w φ e i rpc ph v₀)
    (hdirect : directTarget w e = some i → ¬ PhaseIn Phase.parked φ i) : Loose i φ v₀ := by
  have hslot : ∀ h, Slot φ v₀ h ↔ Slot φ (View.of w.shared) h := by
    intro h
    unfold Slot
    rw [henters.holder]
  have hkeep : v₀.queue = (View.of w.shared).queue → Tokens φ v₀ := by
    intro hq
    refine ⟨hq ▸ hT.queue, hq ▸ hT.once, fun h hh => ?_⟩
    rw [hq]
    exact hT.slot h ((hslot h).1 hh)
  cases henters.cause with
  | arrived hφ _ hrpc hq =>
      refine (hkeep hq).loose fun hparked => ?_
      unfold PhaseIn at hparked
      rw [hφ] at hparked
      cases hparked
  | completed hφ hc hq =>
      refine (hkeep hq).loose (not_parked_of hφ ?_)
      cases ph <;> first | rfl | cases hc
  | @dequeued _ _ j hφ hj hq =>
      have hcount := fun y => count_eraseIdx_lt (y := y) hj
      rw [← hq] at hcount
      have hmem : some i ∈ (View.of w.shared).queue := List.mem_of_getElem? hj
      have hsub : ∀ h, some h ∈ v₀.queue → some h ∈ (View.of w.shared).queue := by
        intro h hh
        rw [hq] at hh
        exact List.mem_of_mem_eraseIdx hh
      have hgone : some i ∉ v₀.queue := by
        intro hstill
        have hpos := List.count_pos_iff.2 hstill
        have honce := hT.once i
        have hsum := hcount (some i)
        rw [if_pos rfl] at hsum
        omega
      refine ⟨fun h hh => ⟨hT.queue h (hsub h hh), ?_⟩, fun h => ?_, fun h hh => ?_⟩
      · rintro rfl
        exact hgone hh
      · have honce := hT.once h
        have hsum := hcount (some h)
        omega
      · rcases hT.slot h ((hslot h).1 hh) with ⟨hparked, hout⟩
        refine ⟨hparked, fun hin => hout (hsub h hin), ?_⟩
        rintro rfl
        exact hout hmem
  | @resumed _ _ h hφ hdir hne hwake hq =>
      -- the one that resumes is not parked, so it did not come out of the queue
      have hsame : v₀.queue = (View.of w.shared).queue := by
        rcases hq with hsame | ⟨j, hj, -⟩
        · exact hsame
        · have hparked := hT.queue h (List.mem_of_getElem? hj)
          unfold PhaseIn at hparked
          rcases hwake with hcheck | ⟨hnone, -⟩
          · rw [hcheck] at hparked
            cases hparked
          · rw [hnone] at hparked
            cases hparked
      exact (hkeep hsame).loose (hdirect hdir)

omit [Keccak] in
theorem slot_critical {ph : Phase} {c : Option (Option HandlerId)} {h : HandlerId}
    (hslot : ph.slot c = some h) : ph.critical = true := by
  cases ph <;> first | rfl | cases hslot

omit [Keccak] in
theorem asking_critical {ph : Phase} (hask : ph.asking = true) : ph.critical = true := by
  cases ph <;> first | rfl | cases hask

/-- A handler other than the one that had its turn is in the phase it was in. -/
theorem Turn.was (hturn : Turn w φ e i rpc ph v₀ t φ' v') {k : HandlerId} (hk : k ≠ i)
    {phk : Phase} (hφ' : φ' k = some phk) : φ k = some phk := by
  rcases hturn.others k hk with hsame | ⟨hnone, -⟩
  · rw [← hsame, hφ']
  · rw [hnone] at hφ'
    cases hφ'

/-- What the phase of InspectState says about its query: it is there, and as
    long as InspectState is parked, it names a coroutine. -/
def Phase.Asked (holder : Option (Option HandlerId)) : Phase → Prop
  | .queued _ => ∃ a, holder = some (some a)
  | .inspecting _ _ _ => holder ≠ none
  | _ => True

omit [Keccak] in
theorem Phase.Asked.ne_none {ph : Phase} {holder : Option (Option HandlerId)}
    (hasked : ph.Asked holder) (hask : ph.asking = true) : holder ≠ none := by
  cases ph with
  | queued index =>
      rcases hasked with ⟨a, rfl⟩
      exact Option.some_ne_none _
  | inspecting index m stage => exact hasked
  | _ => cases hask

omit [Keccak] in
theorem Phase.Asked.of_not_asking {ph : Phase} {holder : Option (Option HandlerId)}
    (hask : ph.asking = false) : ph.Asked holder := by
  cases ph <;> trivial

/-- The queries after a turn. -/
theorem turn_asked (hturn : Turn w φ e i rpc ph v₀ t φ' v') (hstep : HandStep i ph v₀ t v')
    (hlock : LockInv φ (View.of w.shared))
    (hI : ∀ k phk, φ k = some phk → phk.Asked (View.of w.shared).holder) :
    ∀ k phk, φ' k = some phk → phk.Asked v'.holder := by
  intro k phk hφ'
  rw [← hturn.enters.holder] at hI
  by_cases hk : k = i
  · rw [hk, hturn.after] at hφ'
    have hnot : t.any Phase.asking = false → phk.Asked v'.holder := by
      intro hask
      rw [hφ'] at hask
      exact .of_not_asking hask
    cases hstep with
    | still hq hh hph hout hask => exact hnot hask
    | queue hph ht hfree hnone hh =>
        rw [ht] at hφ'
        cases hφ'
        exact ⟨i, hh⟩
    | direct hph ht hfree hnone hempty hh =>
        rw [ht] at hφ'
        cases hφ'
        exact hh ▸ Option.some_ne_none _
    | carry hph ht hout hleft hslot hq hh =>
        rw [ht] at hφ'
        cases hφ'
        rcases hh with ⟨hsame, -⟩ | ⟨-, hask⟩
        · have hwas : φ i = some ph := hturn.enters.parked (by rintro rfl; cases hph)
          have hne := (hI i ph hwas).ne_none hph
          cases phk with
          | queued index => cases hout
          | inspecting index m stage => exact hsame ▸ hne
          | _ => trivial
        · exact .of_not_asking hask
    | give hph ht => rw [ht] at hφ'; cases hφ'
    | park hph ht => exact hnot (by rw [ht]; rfl)
    | drop hph ht hout hask => exact hnot hask
    | taint htaint hph hnask hout hask => exact hnot hask
  · have hwas := hI k phk (hturn.was hk hφ')
    by_cases hask : phk.asking = true
    · have hcrit : PhaseIn Phase.critical φ k :=
        phaseIn_of (hturn.was hk hφ') (asking_critical hask)
      -- only a handler without the lock leaves the query of another one alone
      have hnot : ph.critical = true ∨ v₀.lock = false → phk.Asked v'.holder := by
        rintro (hph | hfree)
        · exact absurd (hlock.unique k i hcrit ((hturn.enters.inside rfl).2 hph)) hk
        · rw [hturn.enters.lock] at hfree
          exact absurd hcrit (hlock.none hfree k)
      have hself : v'.holder = some (some i) → phk.Asked v'.holder := by
        intro hh
        rw [hh]
        cases phk with
        | queued index => exact ⟨i, rfl⟩
        | inspecting index m stage => exact Option.some_ne_none _
        | _ => trivial
      cases hstep with
      | still hq hh => exact hh ▸ hwas
      | queue hph ht hfree => exact hnot (Or.inr hfree)
      | direct hph ht hfree => exact hnot (Or.inr hfree)
      | carry hph => exact hnot (Or.inl (asking_critical hph))
      | give hph => exact hnot (Or.inl (hph ▸ rfl))
      | park hph ht hh hh' => exact hself hh'
      | drop hph => exact hnot (Or.inl (asking_critical hph))
      | taint htaint hph hnask hout hask' hh =>
          rcases hh with ⟨hsame, -⟩ | ⟨-, c, -, hnew, -⟩
          · exact hsame ▸ hwas
          · exact hself hnew
    · exact .of_not_asking (Bool.not_eq_true _ ▸ hask)

omit [Keccak] in
/-- A name is put in the completion queue. -/
theorem Loose.append {v v' : View} (hL : Loose i φ v) {g : HandlerId}
    (hq : v'.queue = v.queue ++ [some g])
    (hg : PhaseIn Phase.parked φ g ∧ some g ∉ v.queue ∧ g ≠ i) :
    (∀ h, some h ∈ v'.queue → PhaseIn Phase.parked φ h ∧ h ≠ i) ∧
      ∀ h, v'.queue.count (some h) ≤ 1 := by
  rcases hg with ⟨hp, hout, hne⟩
  refine ⟨fun h hmem => ?_, fun h => ?_⟩
  · rw [hq, List.mem_append, List.mem_singleton] at hmem
    rcases hmem with hmem | hmem
    · exact hL.queue h hmem
    · cases hmem
      exact ⟨hp, hne⟩
  · rw [hq, List.count_append]
    exact count_append_single hL.once hout h

omit [Keccak] in
/-- The name of nobody is put in the completion queue, or none at all. -/
theorem Loose.queue_congr {v v' : View} (hL : Loose i φ v)
    (hq : v'.queue = v.queue ∨ v'.queue = v.queue ++ [none]) :
    (∀ h, some h ∈ v'.queue → PhaseIn Phase.parked φ h ∧ h ≠ i) ∧
      ∀ h, v'.queue.count (some h) ≤ 1 := by
  rcases hq with hq | hq
  · exact ⟨hq ▸ hL.queue, hq ▸ hL.once⟩
  · refine ⟨fun h hmem => ?_, fun h => ?_⟩
    · rw [hq, List.mem_append, List.mem_singleton] at hmem
      rcases hmem with hmem | hmem
      · exact hL.queue h hmem
      · cases hmem
    · rw [hq, List.count_append, List.count_singleton]
      simpa using hL.once h

/-- The names after a turn, when the query that may be there is somebody's. -/
theorem turn_tokens (hturn : Turn w φ e i rpc ph v₀ t φ' v') (hstep : HandStep i ph v₀ t v')
    (hlock : LockInv φ (View.of w.shared)) (hL : Loose i φ v₀)
    (hasked : ph.asking = true → v₀.holder ≠ none)
    (hsole : ph.transaction = true → ∀ k index m stage, φ k = some (.inspecting index m stage) →
      k = i)
    (htaint : v'.tainted = false)
    (hlive : v'.holder = none ∨ ∃ k, PhaseIn Phase.asking φ' k) : Tokens φ' v' := by
  have hparked : ∀ {h}, PhaseIn Phase.parked φ h ∧ h ≠ i → PhaseIn Phase.parked φ' h :=
    fun hp => (hturn.elsewhere (fun _ => rfl) hp.2).2 hp.1
  have hsameq := fun hq : v'.queue = v₀.queue => hL.queue_congr (Or.inl hq)
  -- nobody else keeps a name beside a handler that holds the lock, or takes it
  have hcrit : ∀ {k phk h c}, φ' k = some phk → phk.slot c = some h →
      (ph.critical = true ∨ v₀.lock = false) → k = i := by
    intro k phk h c hφ' hslot hwhy
    by_contra hk
    have hin : PhaseIn Phase.critical φ k :=
      phaseIn_of (hturn.was hk hφ') (slot_critical hslot)
    rcases hwhy with hph | hfree
    · exact hk (hlock.unique k i hin ((hturn.enters.inside rfl).2 hph))
    · rw [hturn.enters.lock] at hfree
      exact hlock.none hfree k hin
  cases hstep with
  | still hq hh hph hout hask hnone =>
      refine ⟨fun h hmem => hparked ((hsameq hq).1 h hmem), (hsameq hq).2, fun h hh' => ?_⟩
      rcases hh' with ⟨k, phk, hφ', hslot⟩
      have hk : k ≠ i := by
        rintro rfl
        rw [hturn.after] at hφ'
        have hno := hnone v'.holder
        rw [hφ', Option.bind_some, hslot] at hno
        cases hno
      rcases hL.slot h ⟨k, phk, hturn.was hk hφ', hh ▸ hslot⟩ with ⟨hp, hout', hne⟩
      exact ⟨hparked ⟨hp, hne⟩, hq ▸ hout'⟩
  | queue hph ht hfree hnone hh hq =>
      refine ⟨fun h hmem => hparked ((hsameq hq).1 h hmem), (hsameq hq).2, fun h hh' => ?_⟩
      rcases hh' with ⟨k, phk, hφ', hslot⟩
      rw [hcrit hφ' hslot (Or.inr hfree), hturn.after, ht] at hφ'
      cases hφ'
      have hself : some i = some h := by rw [← hslot, hh]; rfl
      cases hself
      refine ⟨hturn.inside.2 (by rw [ht]; rfl), fun hmem => ?_⟩
      exact ((hsameq hq).1 i hmem).2 rfl
  | direct hph ht hfree hnone hempty hh hq =>
      refine ⟨fun h hmem => hparked ((hsameq hq).1 h hmem), (hsameq hq).2, fun h hh' => ?_⟩
      rcases hh' with ⟨k, phk, hφ', hslot⟩
      rw [hcrit hφ' hslot (Or.inr hfree), hturn.after, ht] at hφ'
      cases hφ'
      cases hslot
  | carry hph ht hout hleft hsame hq hh =>
      refine ⟨fun h hmem => hparked ((hsameq hq).1 h hmem), (hsameq hq).2, fun h hh' => ?_⟩
      rcases hh' with ⟨k, phk, hφ', hslot⟩
      rw [hcrit hφ' hslot (Or.inl (asking_critical hph)), hturn.after, ht] at hφ'
      cases hφ'
      rw [hsame] at hslot
      have hwas : φ i = some ph := hturn.enters.parked (by rintro rfl; cases hph)
      rcases hL.slot h ⟨i, ph, hwas, hslot⟩ with ⟨hp, hout', hne⟩
      exact ⟨hparked ⟨hp, hne⟩, hq ▸ hout'⟩
  | @give m hph ht hh hq =>
      subst hph
      have hnobody : ∀ h, ¬ Slot φ' v' h := by
        rintro h ⟨k, phk, hφ', hslot⟩
        rw [hcrit hφ' hslot (Or.inl rfl), hturn.after, ht] at hφ'
        cases hφ'
      have hqueue : (∀ h, some h ∈ v'.queue → PhaseIn Phase.parked φ h ∧ h ≠ i) ∧
          ∀ h, v'.queue.count (some h) ≤ 1 := by
        cases m with
        | none => exact hsameq (hq.trans (List.append_nil _))
        | some g =>
            have hwas : φ i = some (.inspected (some g)) := hturn.enters.parked Phase.noConfusion
            exact hL.append hq (hL.slot g ⟨i, _, hwas, rfl⟩)
      exact ⟨fun h hmem => hparked (hqueue.1 h hmem), hqueue.2, fun h hh' => absurd hh' (hnobody h)⟩
  | @park index number stage c hph ht hh hh' hq =>
      subst hph
      -- the query is that of a handler that is parked, and it is the one to go on
      have hasks : ∃ k j, k ≠ i ∧ φ k = some (.queued j) := by
        rcases hlive with hnone | ⟨k, hk⟩
        · rw [hh'] at hnone
          cases hnone
        · rcases hturn.outside (fun _ => rfl) (by rw [ht]; rfl) hk with ⟨hne, hwas⟩
          rcases phaseIn_iff.1 hwas with ⟨phk, hφ, hask⟩
          cases phk with
          | queued j => exact ⟨k, j, hne, hφ⟩
          | inspecting j m s => exact absurd (hsole rfl k j m s hφ) hne
          | _ => cases hask
      rcases hasks with ⟨k, j, hki, hφk⟩
      have hqueue : (∀ h, some h ∈ v'.queue → PhaseIn Phase.parked φ h ∧ h ≠ i) ∧
          ∀ h, v'.queue.count (some h) ≤ 1 := by
        cases c with
        | none => exact hL.queue_congr (Or.inr hq)
        | some g => exact hL.append hq (hL.slot g ⟨k, _, hφk, by rw [hh]; rfl⟩)
      -- and from now on it names the handler that handed over
      have hslots : ∀ h, Slot φ' v' h → h = i := by
        rintro h ⟨l, phl, hφ', hslot⟩
        by_cases hl : l = i
        · rw [hl, hturn.after, ht] at hφ'
          cases hφ'
          cases hslot
        · have hlk : l = k := hlock.unique l k
            (phaseIn_of (hturn.was hl hφ') (slot_critical hslot)) (phaseIn_of hφk rfl)
          rw [hlk] at hφ'
          have hph := hturn.was hki hφ'
          rw [hφk] at hph
          cases hph
          have hself : some i = some h := by rw [← hslot, hh']; rfl
          exact (Option.some.inj hself).symm
      refine ⟨fun h hmem => hparked (hqueue.1 h hmem), hqueue.2, fun h hs => ?_⟩
      rw [hslots h hs]
      exact ⟨hturn.inside.2 (by rw [ht]; rfl), fun hmem => (hqueue.1 i hmem).2 rfl⟩
  | drop hph ht hout hask hh =>
      exfalso
      rcases hlive with hnone | ⟨k, hk⟩
      · exact hasked hph (hh ▸ hnone)
      · rcases hturn.outside (fun _ => rfl) hask hk with ⟨hne, hwas⟩
        rcases phaseIn_iff.1 hwas with ⟨phk, hφ, hask'⟩
        exact hne (hlock.unique k i (phaseIn_of hφ (asking_critical hask'))
          ((hturn.enters.inside rfl).2 (asking_critical hph)))
  | taint htaint' =>
      rw [htaint] at htaint'
      cases htaint'

/-- A query that nobody asks for any more stays that way. -/
theorem turn_live (hturn : Turn w φ e i rpc ph v₀ t φ' v') (hstep : HandStep i ph v₀ t v')
    (hlive : v'.holder = none ∨ ∃ k, PhaseIn Phase.asking φ' k) (htaint : v'.tainted = false) :
    v₀.holder = none ∨ ∃ k, PhaseIn Phase.asking φ k := by
  have hasking : ph.asking = true → v₀.holder = none ∨ ∃ k, PhaseIn Phase.asking φ k :=
    fun hph => Or.inr ⟨i, (hturn.enters.inside rfl).2 hph⟩
  have hother : t.any Phase.asking = false → (∃ k, PhaseIn Phase.asking φ' k) →
      v₀.holder = none ∨ ∃ k, PhaseIn Phase.asking φ k := by
    rintro hask ⟨k, hk⟩
    exact Or.inr ⟨k, (hturn.outside (fun _ => rfl) hask hk).2⟩
  cases hstep with
  | still hq hh hph hout hask =>
      rcases hlive with hnone | hsome
      · exact Or.inl (hh ▸ hnone)
      · exact hother hask hsome
  | queue hph ht hfree hnone => exact Or.inl hnone
  | direct hph ht hfree hnone => exact Or.inl hnone
  | carry hph => exact hasking hph
  | give hph ht hh =>
      rcases hlive with hnone | hsome
      · exact Or.inl (hh ▸ hnone)
      · exact hother (by rw [ht]; rfl) hsome
  | park hph ht hh hh' =>
      rcases hlive with hnone | hsome
      · rw [hh'] at hnone
        cases hnone
      · exact hother (by rw [ht]; rfl) hsome
  | drop hph => exact hasking hph
  | taint htaint' =>
      rw [htaint] at htaint'
      cases htaint'

end Turns

end ServerManager
