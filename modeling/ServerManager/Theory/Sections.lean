import ServerManager.Theory.Moves

/-!
# Sections of the Handlers

The stretches of the handlers that the properties of the manager are about: the
critical section of the session lock, `process_pending_inputs`, and the
transactions on the machine. A handler is parked whenever another one runs, so
each section is a set of suspension points, given here by the request of the
handler and the operation it waits for, and by its phase in the protocol. The
first is what a statement about a world says; the second is what the invariants
are about.

## Main definitions

* `InCritical`: Between the construction of the session lock and its release.
* `InProcessing`: Inside `process_pending_inputs`.
* `InTransaction`: Inside a transaction on the machine.
* `AwaitsAck`: AdvanceState before the acknowledgement of its response.
* `InHandOff`: Parked between two inputs, until a query is done.

## Theorems

* `Enters.inside`, `Turn.inside`, `Turn.elsewhere`, `Turn.unmoved`, `Turn.outside`: What a
  turn does to a section.
* `inSection_iff`: A section of a world is a section of its phases.
-/

namespace ServerManager

open Coroutine

variable [Keccak]

/-! ### Sections of a world -/

/-- Handler `h` is parked at a point of some kind. -/
def InSection (point : Rpc → Op → Bool) (w : Manager) (h : HandlerId) : Prop :=
  (w.handlers h).any (fun p => point p.tag p.op) = true

instance (point : Rpc → Op → Bool) (w : Manager) (h : HandlerId) :
    Decidable (InSection point w h) := inferInstanceAs (Decidable (_ = true))

/-- The points at which a handler owns the session lock: from its construction
    to `release`, or to the end of the scope for a handler that never calls it. -/
def criticalAt : Rpc → Op → Bool
  | .advanceState _, .finish _ => true
  | .inspectState _, .awaitInputs => true
  | .inspectState _, .call _ => true
  | .inspectState _, .checkin => true
  | .inspectState _, .finish _ => true
  | .finishEpoch _, .call _ => true
  | .finishEpoch _, .finish _ => true
  | .deleteEpoch _, .finish _ => true
  | .getSessionStatus, .finish _ => true
  | .getEpochStatus _, .finish _ => true
  | _, _ => false

/-- The points inside `process_pending_inputs`. -/
def processingAt : Rpc → Op → Bool
  | .advanceState _, .call _ => true
  | .advanceState _, .checkin => true
  | .advanceState _, .handOff => true
  | _, _ => false

/-- The points inside a transaction: in `process_pending_inputs` from the
    snapshot request of an input until it is recorded and popped, and in
    `process_pending_query` from its snapshot request until its rollback. -/
def transactionAt : Rpc → Op → Bool
  | .advanceState _, .call _ => true
  | .advanceState _, .checkin => true
  | .inspectState _, .call _ => true
  | .inspectState _, .checkin => true
  | _, _ => false

/-- The point at which AdvanceState waits for the acknowledgement of its
    response. -/
def ackAt : Rpc → Op → Bool
  | .advanceState _, .finish _ => true
  | _, _ => false

/-- The point at which AdvanceState has handed the machine over to a query. -/
def handOffAt : Rpc → Op → Bool
  | .advanceState _, .handOff => true
  | _, _ => false

abbrev InCritical : Manager → HandlerId → Prop := InSection criticalAt
abbrev InProcessing : Manager → HandlerId → Prop := InSection processingAt
abbrev InTransaction : Manager → HandlerId → Prop := InSection transactionAt
abbrev AwaitsAck : Manager → HandlerId → Prop := InSection ackAt
abbrev InHandOff : Manager → HandlerId → Prop := InSection handOffAt

/-! ### Sections of a phase -/

namespace Phase

def critical : Phase → Bool
  | .reporting | .storing _ | .accepted _ | .queued _ | .inspecting _ _ _ | .inspected _ => true
  | _ => false

def processing : Phase → Bool
  | .advancing _ _ _ | .handedOff _ => true
  | _ => false

def transaction : Phase → Bool
  | .advancing _ _ _ | .inspecting _ _ _ => true
  | _ => false

def ack : Phase → Bool
  | .accepted _ => true
  | _ => false

def handOff : Phase → Bool
  | .handedOff _ => true
  | _ => false

end Phase

/-- Handler `h` is in a phase of some kind. -/
def PhaseIn (b : Phase → Bool) (φ : HandlerId → Option Phase) (h : HandlerId) : Prop :=
  (φ h).any b = true

omit [Keccak] in
theorem phaseIn_of {b : Phase → Bool} {φ : HandlerId → Option Phase} {h : HandlerId} {ph : Phase}
    (hφ : φ h = some ph) (hb : b ph = true) : PhaseIn b φ h := by
  unfold PhaseIn
  rw [hφ]
  exact hb

omit [Keccak] in
theorem phaseIn_iff {b : Phase → Bool} {φ : HandlerId → Option Phase} {h : HandlerId} :
    PhaseIn b φ h ↔ ∃ ph, φ h = some ph ∧ b ph = true := Option.any_eq_true ..

omit [Keccak] in
theorem critical_of_phaseAt {rpc : Rpc} {ph : Phase} {op : Op} (hat : PhaseAt rpc ph op) :
    criticalAt rpc op = ph.critical := by
  cases hat with
  | reporting hrpc => cases rpc <;> first | rfl | exact absurd hrpc id
  | refused => cases rpc <;> rfl
  | resuming => cases rpc <;> rfl
  | _ => rfl

omit [Keccak] in
theorem processing_of_phaseAt {rpc : Rpc} {ph : Phase} {op : Op} (hat : PhaseAt rpc ph op) :
    processingAt rpc op = ph.processing := by
  cases hat with
  | reporting => cases rpc <;> rfl
  | refused => cases rpc <;> rfl
  | resuming => cases rpc <;> rfl
  | _ => rfl

omit [Keccak] in
theorem transaction_of_phaseAt {rpc : Rpc} {ph : Phase} {op : Op} (hat : PhaseAt rpc ph op) :
    transactionAt rpc op = ph.transaction := by
  cases hat with
  | reporting => cases rpc <;> rfl
  | refused => cases rpc <;> rfl
  | resuming => cases rpc <;> rfl
  | _ => rfl

omit [Keccak] in
theorem ack_of_phaseAt {rpc : Rpc} {ph : Phase} {op : Op} (hat : PhaseAt rpc ph op) :
    ackAt rpc op = ph.ack := by
  cases hat with
  | reporting hrpc => cases rpc <;> first | rfl | exact absurd hrpc id
  | refused => cases rpc <;> rfl
  | resuming => cases rpc <;> rfl
  | _ => rfl

omit [Keccak] in
theorem handOff_of_phaseAt {rpc : Rpc} {ph : Phase} {op : Op} (hat : PhaseAt rpc ph op) :
    handOffAt rpc op = ph.handOff := by
  cases hat with
  | reporting => cases rpc <;> rfl
  | refused => cases rpc <;> rfl
  | resuming => cases rpc <;> rfl
  | _ => rfl

/-- A section of a world is a section of its phases. -/
theorem inSection_iff {w : Manager} {φ : HandlerId → Option Phase} {point : Rpc → Op → Bool}
    {b : Phase → Bool} (ha : sessionProtocol.Abides w φ)
    (hb : ∀ {rpc ph op}, PhaseAt rpc ph op → point rpc op = b ph) (h : HandlerId) :
    InSection point w h ↔ PhaseIn b φ h := by
  unfold InSection PhaseIn
  cases hp : w.handlers h with
  | none => rw [ha.absent hp]; rfl
  | some p =>
      obtain ⟨ph, hφ, hat, -⟩ := ha.phase hp
      rw [hφ, Option.any_some, Option.any_some, hb hat]

/-- A handler that is parked has been created. -/
theorem inSection_lt {w : Manager} {φ : HandlerId → Option Phase} {point : Rpc → Op → Bool}
    (ha : sessionProtocol.Abides w φ) {h : HandlerId} (hh : InSection point w h) :
    h < w.next := by
  by_contra hge
  unfold InSection at hh
  rw [ha.unused h (Nat.le_of_not_lt hge)] at hh
  cases hh

theorem inCritical_iff {w : Manager} {φ : HandlerId → Option Phase}
    (ha : sessionProtocol.Abides w φ) {h : HandlerId} :
    InCritical w h ↔ PhaseIn Phase.critical φ h := inSection_iff ha critical_of_phaseAt h

theorem inProcessing_iff {w : Manager} {φ : HandlerId → Option Phase}
    (ha : sessionProtocol.Abides w φ) {h : HandlerId} :
    InProcessing w h ↔ PhaseIn Phase.processing φ h := inSection_iff ha processing_of_phaseAt h

theorem inTransaction_iff {w : Manager} {φ : HandlerId → Option Phase}
    (ha : sessionProtocol.Abides w φ) {h : HandlerId} :
    InTransaction w h ↔ PhaseIn Phase.transaction φ h :=
  inSection_iff ha transaction_of_phaseAt h

theorem awaitsAck_iff {w : Manager} {φ : HandlerId → Option Phase}
    (ha : sessionProtocol.Abides w φ) {h : HandlerId} :
    AwaitsAck w h ↔ PhaseIn Phase.ack φ h := inSection_iff ha ack_of_phaseAt h

theorem inHandOff_iff {w : Manager} {φ : HandlerId → Option Phase}
    (ha : sessionProtocol.Abides w φ) {h : HandlerId} :
    InHandOff w h ↔ PhaseIn Phase.handOff φ h := inSection_iff ha handOff_of_phaseAt h

/-! ### Turns -/

variable {w : Manager} {φ φ' : HandlerId → Option Phase} {e : Event} {i : HandlerId} {rpc : Rpc}
  {ph : Phase} {v₀ v' : View} {t : Option Phase}

theorem Enters.before (henters : Enters w φ e i rpc ph v₀) :
    φ i = some ph ∨ (φ i = none ∧ ph = .fresh) := by
  cases henters.cause with
  | arrived hφ => exact Or.inr ⟨hφ, rfl⟩
  | completed hφ => exact Or.inl hφ
  | dequeued hφ => exact Or.inl hφ
  | resumed hφ => exact Or.inl hφ

/-- A handler that is parked was parked in this phase. -/
theorem Enters.parked (henters : Enters w φ e i rpc ph v₀) (hph : ph ≠ .fresh) :
    φ i = some ph := by
  obtain hφ | ⟨-, hfresh⟩ := henters.before
  · exact hφ
  · exact absurd hfresh hph

/-- A handler that has not run yet is one whose request or alarm just came. -/
theorem Enters.arrival (ha : sessionProtocol.Abides w φ) (henters : Enters w φ e i rpc ph v₀)
    (hph : ph = .fresh) : (∃ peer fuel env, e = .arrive rpc peer fuel env) ∨
      ∃ a env, e = .alarm a env ∧ rpc = .checkinDeadline a := by
  have hparked : φ i ≠ some .fresh := by
    intro hφ
    obtain ⟨p, -, hat⟩ := ha.parked hφ
    exact phaseAt_ne_fresh hat rfl
  cases henters.cause with
  | arrived _ _ hrpc => exact hrpc
  | completed hφ => exact absurd (hph ▸ hφ) hparked
  | dequeued hφ => exact absurd (hph ▸ hφ) hparked
  | resumed hφ => exact absurd (hph ▸ hφ) hparked

/-- The request of a handler that has not run yet is one of those allowed. -/
theorem Enters.only (ha : sessionProtocol.Abides w φ) (henters : Enters w φ e i rpc ph v₀)
    {rpcs : Rpc → Bool} (honly : e.only rpcs) (hph : ph = .fresh) :
    rpcs rpc = true ∨ ∃ a, rpc = .checkinDeadline a := by
  obtain ⟨peer, fuel, env, rfl⟩ | ⟨a, env, -, hrpc⟩ := henters.arrival ha hph
  · exact Or.inl honly
  · exact Or.inr ⟨a, hrpc⟩

theorem Enters.lock (henters : Enters w φ e i rpc ph v₀) :
    v₀.lock = (View.of w.shared).lock := by rw [henters.view]

theorem Enters.processing (henters : Enters w φ e i rpc ph v₀) :
    v₀.processing = (View.of w.shared).processing := by rw [henters.view]

theorem Enters.tainted (henters : Enters w φ e i rpc ph v₀) :
    v₀.tainted = (View.of w.shared).tainted := by rw [henters.view]

theorem Enters.active (henters : Enters w φ e i rpc ph v₀) :
    v₀.active = (View.of w.shared).active := by rw [henters.view]

theorem Enters.count (henters : Enters w φ e i rpc ph v₀) :
    v₀.count = (View.of w.shared).count := by rw [henters.view]

theorem Enters.mcycle (henters : Enters w φ e i rpc ph v₀) :
    v₀.mcycle = (View.of w.shared).mcycle := by rw [henters.view]

theorem Enters.epochs (henters : Enters w φ e i rpc ph v₀) :
    v₀.epochs = (View.of w.shared).epochs := by rw [henters.view]

theorem Enters.sent (henters : Enters w φ e i rpc ph v₀) :
    v₀.sent = (View.of w.shared).sent := by rw [henters.view]

/-- The phase a handler begins to run in tells the section it was in. -/
theorem Enters.inside (henters : Enters w φ e i rpc ph v₀) {b : Phase → Bool}
    (hb : b .fresh = false) : PhaseIn b φ i ↔ b ph = true := by
  unfold PhaseIn
  obtain hφ | ⟨hφ, rfl⟩ := henters.before
  · rw [hφ, Option.any_some]
  · rw [hφ, hb]
    rfl

/-- The phase a handler parks in tells the section it is in. -/
theorem Turn.inside (hturn : Turn w φ e i rpc ph v₀ t φ' v') {b : Phase → Bool} :
    PhaseIn b φ' i ↔ t.any b = true := by
  unfold PhaseIn
  rw [hturn.after]

/-- A handler other than the one whose turn it was is in a section of phases
    that CheckIn has no part in exactly if it was before. -/
theorem Turn.elsewhere (hturn : Turn w φ e i rpc ph v₀ t φ' v') {b : Phase → Bool}
    (hb : ∀ g, b (.checkedIn g) = false) {k : HandlerId} (hk : k ≠ i) :
    PhaseIn b φ' k ↔ PhaseIn b φ k := by
  unfold PhaseIn
  obtain hsame | ⟨hnone, g, hcheck⟩ := hturn.others k hk
  · rw [hsame]
  · rw [hnone, hcheck, Option.any_some, hb]
    rfl

/-- A turn that neither enters nor leaves a section. -/
theorem Turn.unmoved (hturn : Turn w φ e i rpc ph v₀ t φ' v') {b : Phase → Bool}
    (hfresh : b .fresh = false) (hcheck : ∀ g, b (.checkedIn g) = false) (hin : t.any b = b ph)
    (k : HandlerId) : PhaseIn b φ' k ↔ PhaseIn b φ k := by
  by_cases hk : k = i
  · rw [hk, hturn.inside, hin, hturn.enters.inside hfresh]
  · exact hturn.elsewhere hcheck hk

/-- Whoever is in a section that the turn did not end in was there before. -/
theorem Turn.outside (hturn : Turn w φ e i rpc ph v₀ t φ' v') {b : Phase → Bool}
    (hcheck : ∀ g, b (.checkedIn g) = false) (hout : t.any b = false) {k : HandlerId}
    (hk : PhaseIn b φ' k) : k ≠ i ∧ PhaseIn b φ k := by
  have hki : k ≠ i := by
    rintro rfl
    rw [hturn.inside, hout] at hk
    cases hk
  exact ⟨hki, (hturn.elsewhere hcheck hki).1 hk⟩

end ServerManager
