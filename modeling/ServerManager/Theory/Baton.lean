import ServerManager.Theory.Exclusion

/-!
# The Baton in the Query

The pending query carries a coroutine, and the two sides pass it to each other
like a baton: InspectState puts itself there and parks, the handler that
processes inputs wakes it up and takes its place, and InspectState wakes that
one up when it is done. Every wake-up trusts that the query is that of a handler
that is still there.

InspectState clears the field on its way to a successful answer and on no other.
A query that fails, in a call to the machine or because the session was tainted
while it was parked, leaves its value behind. `KeepsQuery` is that this does not
happen in a step, and with it the baton is always good: also in the step in
which AdvanceState fails with a query parked behind it, which the lock does not
survive.

## Main definitions

* `InQuery`: InspectState inside its try block, with its query in the epoch.
* `GivesWay`: AdvanceState after it woke up a query.
* `KeepsQuery`, `LeavesClean`: What a step must not do.
* `BatonValid`, `HandsToQuery`: The baton is good, and so is every wake-up.
* `BatonInv`: The invariant.

## Theorems

* `query_waits`: The query found between two inputs is that of a parked handler.
* `turn_baton`: A turn keeps the invariant.
* `turn_hands`: A turn wakes up nobody else.
* `baton_valid`: The baton in every run that keeps its queries.
* `query_left_behind`: A query without a handler, and a null coroutine.
-/

namespace ServerManager

open Coroutine

variable [Keccak]

/-! ### Sections -/

/-- The points of InspectState inside its try block, with its query in the
    epoch. -/
def queryAt : Rpc → Op → Bool
  | .inspectState _, .awaitInputs | .inspectState _, .call _ | .inspectState _, .checkin => true
  | _, _ => false

/-- The point at which InspectState waits for the inputs to let it in. -/
def awaitInputsAt : Rpc → Op → Bool
  | .inspectState _, .awaitInputs => true
  | _, _ => false

/-- The points at which AdvanceState is parked after it woke up a query. -/
def givesWayAt : Rpc → Op → Bool
  | .advanceState _, .handOff | .advanceState _, .afterTaint => true
  | _, _ => false

/-- The point at which a handler waits for the acknowledgement of an error. -/
def refusedAt : Rpc → Op → Bool
  | _, .finishWithError _ => true
  | _, _ => false

abbrev InQuery : Manager → HandlerId → Prop := InSection queryAt
abbrev AwaitsInputs : Manager → HandlerId → Prop := InSection awaitInputsAt
abbrev GivesWay : Manager → HandlerId → Prop := InSection givesWayAt
abbrev Refused : Manager → HandlerId → Prop := InSection refusedAt

namespace Phase

def queues : Phase → Bool
  | .queued _ => true
  | _ => false

def givesWay : Phase → Bool
  | .handedOff _ | .leaving => true
  | _ => false

def isRefused : Phase → Bool
  | .refused => true
  | _ => false

end Phase

section Points

variable {w : Manager} {φ : HandlerId → Option Phase} (ha : sessionProtocol.Abides w φ)
  {h : HandlerId}

include ha

theorem inQuery_iff : InQuery w h ↔ PhaseIn Phase.asking φ h := by
  refine inSection_iff ha (fun {rpc ph op} hat => ?_) h
  cases hat with
  | reporting => cases rpc <;> rfl
  | refused => cases rpc <;> rfl
  | resuming => cases rpc <;> rfl
  | _ => rfl

theorem awaitsInputs_iff : AwaitsInputs w h ↔ PhaseIn Phase.queues φ h := by
  refine inSection_iff ha (fun {rpc ph op} hat => ?_) h
  cases hat with
  | reporting => cases rpc <;> rfl
  | refused => cases rpc <;> rfl
  | resuming => cases rpc <;> rfl
  | _ => rfl

theorem givesWay_iff : GivesWay w h ↔ PhaseIn Phase.givesWay φ h := by
  refine inSection_iff ha (fun {rpc ph op} hat => ?_) h
  cases hat with
  | reporting => cases rpc <;> rfl
  | refused => cases rpc <;> rfl
  | resuming => cases rpc <;> rfl
  | _ => rfl

theorem refused_iff : Refused w h ↔ PhaseIn Phase.isRefused φ h := by
  refine inSection_iff ha (fun {rpc ph op} hat => ?_) h
  cases hat with
  | refused => cases rpc <;> rfl
  | _ => rfl

end Points

/-! ### The invariant -/

/-- The query is that of a handler, and the one that is parked for it. -/
structure BatonInv (φ : HandlerId → Option Phase) (v : View) : Prop where
  clean : v.tainted = false → ExclusionInv φ v
  solo : SoloInv φ v
  live : v.holder ≠ none → ∃ k, PhaseIn Phase.asking φ k
  unique : ∀ k l, PhaseIn Phase.asking φ k → PhaseIn Phase.asking φ l → k = l
  /-- In a tainted session with a query, nobody works or will work on inputs. -/
  spent : v.tainted = true → v.holder ≠ none →
    ∀ k, ¬ PhaseIn Phase.processing φ k ∧ ¬ PhaseIn Phase.ack φ k

section Turns

variable {w : Manager} {φ φ' : HandlerId → Option Phase} {e : Event} {i : HandlerId} {rpc : Rpc}
  {ph : Phase} {v₀ v' : View} {t : Option Phase}

omit [Keccak] in
/-- A handler that works on an input and finds a query finds that of a parked
    InspectState, and it is named in it. -/
theorem query_waits {v : View} (hI : BatonInv φ v) (hclean : v.tainted = false)
    {index number : UInt64} {stage : Stage} (hφ : φ i = some (.advancing index number stage))
    {c : Option HandlerId} (hh : v.holder = some c) :
    ∃ k j, k ≠ i ∧ φ k = some (.queued j) ∧ c = some k := by
  have hE := hI.clean hclean
  rcases hI.live (by rw [hh]; exact Option.some_ne_none _) with ⟨k, hk⟩
  rcases phaseIn_iff.1 hk with ⟨phk, hφk, hask⟩
  have hki : k ≠ i := by
    rintro rfl
    rw [hφ] at hφk
    cases hφk
    cases hask
  cases phk with
  | inspecting j m s => exact absurd (hE.sole k i (phaseIn_of hφk rfl) (phaseIn_of hφ rfl)) hki
  | queued j =>
      rcases hE.asked k _ hφk with ⟨a, ha⟩
      rw [hh] at ha
      have hslot : (Phase.queued j).slot v.holder = some a := by rw [hh, ha]; rfl
      rcases (hE.tokens hclean (Or.inr ⟨k, hk⟩)).slot a ⟨k, _, hφk, hslot⟩ with ⟨hparked, -⟩
      -- the one named is parked, so it is not the one that works on inputs
      rcases phaseIn_iff.1 hparked with ⟨pha, hφa, hpark⟩
      cases pha with
      | handedOff j' =>
          have hai := hE.solo.work.processing.unique a i (phaseIn_of hφa rfl) (phaseIn_of hφ rfl)
          rw [hai, hφ] at hφa
          cases hφa
      | queued j' =>
          have hak := hE.lock.unique a k (phaseIn_of hφa rfl) (phaseIn_of hφk rfl)
          exact ⟨k, j, hki, hφk, by rw [Option.some.inj ha, hak]⟩
      | _ => cases hpark
  | _ => cases hask

/-- A session is tainted by AdvanceState, at its end or in its work, or by a
    query that fails. -/
theorem trans_spoils (hstep : Trans i rpc ph v₀ t v') (hclean : v₀.tainted = false)
    (htaint : v'.tainted = true) :
    ((ph.ack = true ∨ ∃ index number stage, ph = .advancing index number stage) ∧
      t.any Phase.processing = false ∧ t.any Phase.ack = false ∧ t.any Phase.asking = false) ∨
    (ph.asking = true ∧ t = some .refused) := by
  have hsame : v'.tainted = v₀.tainted → False := by
    intro heq
    rw [heq, hclean] at htaint
    cases htaint
  cases hstep with
  | finish _ _ _ _ _ _ _ hf => cases hf <;> exact (hsame rfl).elim
  | stored _ hf => cases hf <;> exact (hsame rfl).elim
  | start hs => cases hs <;> exact (hsame rfl).elim
  | acceptedTaint hwhy ht => cases ht <;> exact Or.inl ⟨Or.inl rfl, rfl, rfl, rfl⟩
  | advanceTaint hf ht => cases ht <;> exact Or.inl ⟨Or.inr ⟨_, _, _, rfl⟩, rfl, rfl, rfl⟩
  | queuedRefuse htainted =>
      rw [hclean] at htainted
      cases htainted
  | inspectFail => exact Or.inr ⟨rfl, rfl⟩
  | @inspected _ _ coroutine => cases coroutine <;> exact (hsame rfl).elim
  | _ => exact (hsame rfl).elim

omit [Keccak] in
theorem asking_not_ack {ph : Phase} (hask : ph.asking = true) : ph.ack = false := by
  cases ph <;> first | rfl | cases hask

/-- Whoever asked and did not have its turn is still asking. -/
theorem Turn.asks (hturn : Turn w φ e i rpc ph v₀ t φ' v') (hph : ph.asking = false)
    (hlive : ∃ k, PhaseIn Phase.asking φ k) : ∃ k, PhaseIn Phase.asking φ' k := by
  rcases hlive with ⟨k, hk⟩
  have hki : k ≠ i := by
    rintro rfl
    rw [hturn.enters.inside rfl, hph] at hk
    cases hk
  exact ⟨k, (hturn.elsewhere (fun _ => rfl) hki).2 hk⟩

/-- The query after a turn is that of a handler. -/
theorem turn_query (hturn : Turn w φ e i rpc ph v₀ t φ' v') (hstep : HandStep i ph v₀ t v')
    (hkeep : ph.asking = true → t ≠ some .refused) (hI : BatonInv φ (View.of w.shared))
    (hsome : v'.holder ≠ none) : ∃ k, PhaseIn Phase.asking φ' k := by
  have hlive : v₀.holder ≠ none → ∃ k, PhaseIn Phase.asking φ k := by
    rw [hturn.enters.holder]
    exact hI.live
  cases hstep with
  | still hq hh hph => exact hturn.asks hph (hlive (hh ▸ hsome))
  | queue hph ht => exact ⟨i, hturn.inside.2 (by rw [ht]; rfl)⟩
  | direct hph ht => exact ⟨i, hturn.inside.2 (by rw [ht]; rfl)⟩
  | carry hph ht hout hleft hslot hq hh =>
      rcases hh with ⟨-, hask⟩ | ⟨hnone, -⟩
      · exact ⟨i, hturn.inside.2 (by rw [ht]; exact hask)⟩
      · exact absurd hnone hsome
  | give hph ht hh => exact hturn.asks (by rw [hph]; rfl) (hlive (hh ▸ hsome))
  | park hph ht hh =>
      exact hturn.asks (by rw [hph]; rfl) (hlive (by rw [hh]; exact Option.some_ne_none _))
  | drop hph ht => exact absurd ht (hkeep hph)
  | taint htaint hph hnot hout hask hh =>
      refine hturn.asks hnot (hlive ?_)
      rcases hh with ⟨hsame, -⟩ | ⟨-, c, hc, -⟩
      · exact hsame ▸ hsome
      · rw [hc]
        exact Option.some_ne_none _

theorem turn_askers (hturn : Turn w φ e i rpc ph v₀ t φ' v') (hstep : HandStep i ph v₀ t v')
    (hI : BatonInv φ (View.of w.shared)) :
    ∀ k l, PhaseIn Phase.asking φ' k → PhaseIn Phase.asking φ' l → k = l := by
  have hold : t.any Phase.asking = false →
      ∀ k l, PhaseIn Phase.asking φ' k → PhaseIn Phase.asking φ' l → k = l := by
    intro hask k l hk hl
    exact hI.unique k l (hturn.outside (fun _ => rfl) hask hk).2
      (hturn.outside (fun _ => rfl) hask hl).2
  -- with the session unlocked, or one query already its own, it is the only one
  have honly : (∀ k, k ≠ i → ¬ PhaseIn Phase.asking φ k) →
      ∀ k l, PhaseIn Phase.asking φ' k → PhaseIn Phase.asking φ' l → k = l := by
    intro hnone
    have hself : ∀ k, PhaseIn Phase.asking φ' k → k = i := by
      intro k hk
      by_contra hne
      exact hnone k hne ((hturn.elsewhere (fun _ => rfl) hne).1 hk)
    exact fun k l hk hl => (hself k hk).trans (hself l hl).symm
  have hfree : v₀.lock = false → v₀.tainted = false → ∀ k, k ≠ i → ¬ PhaseIn Phase.asking φ k := by
    intro hlock hclean k _ hk
    rw [hturn.enters.lock] at hlock
    rw [hturn.enters.tainted] at hclean
    rcases phaseIn_iff.1 hk with ⟨phk, hφ, hask⟩
    exact (hI.clean hclean).lock.none hlock k (phaseIn_of hφ (asking_critical hask))
  cases hstep with
  | still hq hh hph hout hask => exact hold hask
  | queue hph ht hlock hnone hh hq hclean => exact honly (hfree hlock hclean)
  | direct hph ht hlock hnone hempty hh hq hclean => exact honly (hfree hlock hclean)
  | carry hph =>
      refine honly fun k hne hk => hne (hI.unique k i hk ?_)
      exact (hturn.enters.inside rfl).2 hph
  | give hph ht => exact hold (by rw [ht]; rfl)
  | park hph ht => exact hold (by rw [ht]; rfl)
  | drop hph ht hout hask => exact hold hask
  | taint htaint hph hnot hout hask => exact hold hask

/-- A tainted session with a query, after a turn. -/
theorem turn_spent (hturn : Turn w φ e i rpc ph v₀ t φ' v') (hstep : HandStep i ph v₀ t v')
    (hinput : InputStep ph v₀ t v') (hkeep : ph.asking = true → t ≠ some .refused)
    (hI : BatonInv φ (View.of w.shared)) (htaint : v'.tainted = true) (hsome : v'.holder ≠ none)
    (k : HandlerId) : ¬ PhaseIn Phase.processing φ' k ∧ ¬ PhaseIn Phase.ack φ' k := by
  cases hclean : v₀.tainted with
  | true =>
      have hwas : v₀.holder ≠ none := by
        cases hstep with
        | still hq hh => exact hh ▸ hsome
        | queue hph ht hlock hnone hh hq hfresh => rw [hclean] at hfresh; cases hfresh
        | direct hph ht hlock hnone hempty hh hq hfresh => rw [hclean] at hfresh; cases hfresh
        | carry hph ht hout hleft hslot hq hh =>
            rcases hh with ⟨hsame, -⟩ | ⟨hnone, -⟩
            · exact hsame ▸ hsome
            · exact absurd hnone hsome
        | give hph ht hh => exact hh ▸ hsome
        | park hph ht hh => rw [hh]; exact Option.some_ne_none _
        | drop hph ht => exact absurd ht (hkeep hph)
        | taint _ hph hnot hout hask hh =>
            rcases hh with ⟨hsame, -⟩ | ⟨-, c, hc, -⟩
            · exact hsame ▸ hsome
            · rw [hc]
              exact Option.some_ne_none _
      rw [hturn.enters.tainted] at hclean
      rw [hturn.enters.holder] at hwas
      have hnone := hI.spent hclean hwas
      have hpp : ph.processing = false := by
        by_contra hph
        exact (hnone i).1 ((hturn.enters.inside rfl).2 (Bool.not_eq_false _ ▸ hph))
      have hpa : ph.ack = false := by
        by_contra hph
        exact (hnone i).2 ((hturn.enters.inside rfl).2 (Bool.not_eq_false _ ▸ hph))
      -- whoever is not at work does not begin to work on a tainted session
      have hout : t.any Phase.processing = false ∧ t.any Phase.ack = false := by
        cases hinput with
        | rest hack hproc => exact ⟨hproc.trans hpp, hack.trans hpa⟩
        | accept input hph ht hlock hfresh =>
            rw [hturn.enters.tainted, hclean] at hfresh
            cases hfresh
        | pass hph => rw [hpa] at hph; cases hph
        | begin hph => rw [hpa] at hph; cases hph
        | stop hph => rw [hpp] at hph; cases hph
        | pop hph => rw [hpp] at hph; cases hph
      exact ⟨fun hk => (hnone k).1 (hturn.outside (fun _ => rfl) hout.1 hk).2,
        fun hk => (hnone k).2 (hturn.outside (fun _ => rfl) hout.2 hk).2⟩
  | false =>
      rcases trans_spoils hturn.trans hclean htaint with ⟨hwhy, hproc, hack, hask⟩ | ⟨hph, ht⟩
      · rw [hturn.enters.tainted] at hclean
        have hE := hI.clean hclean
        rcases turn_query hturn hstep hkeep hI hsome with ⟨l, hl⟩
        rcases hturn.outside (fun _ => rfl) hask hl with ⟨hli, hwas⟩
        rcases phaseIn_iff.1 hwas with ⟨phl, hφl, hasks⟩
        have hcrit : PhaseIn Phase.critical φ l := phaseIn_of hφl (asking_critical hasks)
        -- the query holds the lock, so AdvanceState was at work on an input
        rcases hwhy with hph | ⟨index, number, stage, rfl⟩
        · have hcrit' : PhaseIn Phase.critical φ i :=
            (hturn.enters.inside rfl).2 (ack_critical (t := some ph) hph)
          exact absurd (hE.lock.unique l i hcrit hcrit') hli
        · refine ⟨fun hk => ?_, fun hk => ?_⟩
          · rcases hturn.outside (fun _ => rfl) hproc hk with ⟨hki, hin⟩
            exact hki (hE.solo.work.processing.unique k i hin ((hturn.enters.inside rfl).2 rfl))
          · rcases hturn.outside (fun _ => rfl) hack hk with ⟨-, hin⟩
            rcases phaseIn_iff.1 hin with ⟨phk, hφk, hackk⟩
            have hcritk : PhaseIn Phase.critical φ k :=
              phaseIn_of hφk (ack_critical (t := some phk) hackk)
            rw [hE.lock.unique k l hcritk hcrit, hφl] at hφk
            cases hφk
            rw [asking_not_ack hasks] at hackk
            cases hackk
      · exact absurd ht (hkeep hph)

/-- A turn keeps the invariant, if no query fails in it, and if it only leaves
    `process_pending_inputs` in a locked session by tainting it. -/
theorem turn_baton (hturn : Turn w φ e i rpc ph v₀ t φ' v') (honly : e.only SoloRpc)
    (ha : sessionProtocol.Abides w φ)
    (hdirect : directTarget w e = some i → ¬ PhaseIn Phase.parked φ i)
    (hleave : PhaseIn Phase.processing φ i → ¬ PhaseIn Phase.processing φ' i →
      (View.of w.shared).lock = false ∨ v'.tainted = true)
    (hkeep : ph.asking = true → t ≠ some .refused) (hI : BatonInv φ (View.of w.shared)) :
    BatonInv φ' v' := by
  rcases hI.solo.work.enter hturn.enters with ⟨hv₀, hph⟩
  have hstep : HandStep i ph v₀ t v' :=
    trans_hand hturn.trans (hI.solo.solo honly ha hturn.enters) hv₀.epochs.present
      (hI.solo.single_enter hturn.enters)
  refine
    { clean := fun hclean => ?_
      solo := turn_solo hturn honly ha hI.solo
      live := turn_query hturn hstep hkeep hI
      unique := turn_askers hturn hstep hI
      spent := turn_spent hturn hstep (turn_inputs hturn honly ha hI.solo) hkeep hI }
  have hwas : (View.of w.shared).tainted = false := by
    by_contra hwas
    rw [Bool.not_eq_false, ← hturn.enters.tainted] at hwas
    rw [trans_tainted hturn.trans hwas] at hclean
    cases hclean
  refine turn_exclusion hturn honly ha hdirect (fun hin hout => ?_) (hI.clean hwas)
  rcases hleave hin hout with hfree | htaint
  · exact hfree
  · rw [hclean] at htaint
    cases htaint

/-- A turn that ends with AdvanceState giving way woke up the InspectState that
    is parked, and nobody else. -/
theorem turn_hands (hturn : Turn w φ e i rpc ph v₀ t φ' v') (honly : e.only SoloRpc)
    (ha : sessionProtocol.Abides w φ) (hI : BatonInv φ (View.of w.shared))
    (hgives : t.any Phase.givesWay = true) :
    ∃ g j, g ≠ i ∧ φ g = some (.queued j) ∧ v'.queue = v₀.queue ++ [some g] := by
  rcases hI.solo.work.enter hturn.enters with ⟨hv₀, -⟩
  have hstep : HandStep i ph v₀ t v' :=
    trans_hand hturn.trans (hI.solo.solo honly ha hturn.enters) hv₀.epochs.present
      (hI.solo.single_enter hturn.enters)
  have hparked : t.any Phase.parked = false → t ≠ some .leaving → False := by
    intro hout hleft
    rcases (Option.any_eq_true ..).1 hgives with ⟨ph', rfl, hph'⟩
    cases ph' with
    | handedOff index => cases hout
    | leaving => exact hleft rfl
    | _ => cases hph'
  -- a query that is found while AdvanceState is at work
  have hfound : ∀ {c}, ph.ack = true ∨ (∃ index number stage, ph = .advancing index number stage) →
      v₀.holder = some c → ∃ k j, k ≠ i ∧ φ k = some (.queued j) ∧ c = some k := by
    intro c hwhy hh
    rw [hturn.enters.holder] at hh
    have hsome : (View.of w.shared).holder ≠ none := by rw [hh]; exact Option.some_ne_none _
    cases hclean : (View.of w.shared).tainted with
    | true =>
        have hnone := hI.spent hclean hsome i
        rcases hwhy with hph | ⟨index, number, stage, rfl⟩
        · exact absurd ((hturn.enters.inside rfl).2 hph) hnone.2
        · exact absurd ((hturn.enters.inside rfl).2 rfl) hnone.1
    | false =>
        rcases hwhy with hph | ⟨index, number, stage, rfl⟩
        · rcases hI.live hsome with ⟨k, hk⟩
          rcases phaseIn_iff.1 hk with ⟨phk, hφk, hask⟩
          have hki := (hI.clean hclean).lock.unique k i (phaseIn_of hφk (asking_critical hask))
            ((hturn.enters.inside rfl).2 (ack_critical (t := some ph) hph))
          rw [hki, hturn.enters.inside rfl] at hk
          rw [asking_not_ack hk] at hph
          cases hph
        · exact query_waits hI hclean (hturn.enters.parked Phase.noConfusion) hh
  cases hstep with
  | still hq hh hph hout hask hslot hleft => exact (hparked hout hleft).elim
  | queue hph ht => rw [ht] at hgives; cases hgives
  | direct hph ht => rw [ht] at hgives; cases hgives
  | carry hph ht hout hleft =>
      exact (hparked (by rw [ht]; exact hout) (by rw [ht]; simpa using hleft)).elim
  | give hph ht => rw [ht] at hgives; cases hgives
  | park hph ht hh hh' hq =>
      rcases hfound (Or.inr ⟨_, _, _, hph⟩) hh with ⟨k, j, hki, hφk, rfl⟩
      exact ⟨k, j, hki, hφk, hq⟩
  | drop hph ht => rw [ht] at hgives; cases hgives
  | taint htaint hph hnot hout hask hh =>
      rcases hh with ⟨-, -, ht⟩ | ⟨-, c, hc, -, hq⟩
      · rw [ht] at hgives
        cases hgives
      · have hwhy : ph.ack = true ∨ ∃ index number stage, ph = .advancing index number stage := by
          rcases hph with hack | htrans
          · exact Or.inl hack
          · cases ph with
            | advancing index number stage => exact Or.inr ⟨index, number, stage, rfl⟩
            | inspecting index m stage => cases hnot
            | _ => cases htrans
        rcases hfound hwhy hc with ⟨k, j, hki, hφk, rfl⟩
        exact ⟨k, j, hki, hφk, hq⟩

end Turns

/-! ### Runs -/

/-- No InspectState ends with an error while its query is in the epoch. -/
def KeepsQuery (w w' : Manager) : Prop := ∀ h < w.next, InQuery w h → ¬ Refused w' h

instance (w w' : Manager) : Decidable (KeepsQuery w w') :=
  inferInstanceAs (Decidable (∀ h < w.next, _ → _))

/-- No handler leaves `process_pending_inputs` in this step while the session
    is locked, other than by tainting the session. -/
def LeavesClean (w w' : Manager) : Prop :=
  ∀ h < w.next, InProcessing w h → ¬ InProcessing w' h →
    sessionLocked w = false ∨ sessionTainted w' = true

instance (w w' : Manager) : Decidable (LeavesClean w w') :=
  inferInstanceAs (Decidable (∀ h < w.next, _ → _ → _))

/-- The events of a run, and the conditions on its steps. -/
abbrev BatonStep (w : Manager) (e : Event) (w' : Manager) : Prop :=
  e.only SoloRpc ∧ KeepsQuery w w' ∧ LeavesClean w w' ∧ LeavesParked w e

/-- A query in an epoch is that of the one InspectState inside its try block. -/
def BatonValid (w : Manager) : Prop :=
  ∀ index e, epochOf w index = some e → e.pendingQuery ≠ none → ∃! h, InQuery w h

/-- An AdvanceState that gives way after this step has put an InspectState in
    the completion queue that is parked until the inputs let it in, and that is
    another handler. -/
def HandsToQuery (w w' : Manager) : Prop :=
  ∀ h, ¬ GivesWay w h → GivesWay w' h → ∃ g, g ≠ h ∧
    w'.shared.completionQueue.getLast? = some (some g) ∧ AwaitsInputs w g ∧ AwaitsInputs w' g

/-- In every run of AdvanceState, InspectState and the reports in which no query
    fails once it is in the epoch, the queries are those of handlers that are
    there, and AdvanceState wakes up the one that is parked. -/
theorem baton_valid {hctx : HandlerContext} {session : SessionType}
    (hfresh : FreshSession hctx session) {w : Manager}
    (hrun : Runs step BatonStep (idle hctx) w) (hw : w.halted = none) :
    BatonValid w ∧ ∀ e w', step w e = some w' → BatonStep w e w' → w'.halted = none →
      HandsToQuery w w' := by
  rcases freshView_of hfresh with ⟨e₀, hv⟩
  have hholder : (View.of hctx).holder = none := by
    have he : (View.of hctx).epochs (View.of hctx).active = some e₀ := by
      rw [hv.epochs, Function.update_self]
    rw [holder_of he, hv.query]
    rfl
  have h₀ : Good BatonInv (idle hctx) := by
    refine good_idle ⟨session, hfresh.entry⟩
      ⟨fun _ => exclusionInv_fresh hv, soloInv_fresh hv, fun hsome => absurd hholder hsome,
        fun k l hk => ?_, fun _ hsome => absurd hholder hsome⟩
    cases hk
  have hgood : Good BatonInv w := by
    refine runs_good hrun (fun _ _ _ hc => legal_of_solo hc.1) h₀ ?_ hw
    intro w w' φ φ' e i rpc ph v₀ t hc ha ha' hI hturn
    refine turn_baton hturn hc.1 ha (leavesParked_phases ha hc.2.2.2) (fun hin hout => ?_)
      (fun hask ht => ?_) hI
    · have hparked := (inProcessing_iff ha).2 hin
      rcases hc.2.2.1 i (inSection_lt ha hparked) hparked fun h =>
        hout ((inProcessing_iff ha').1 h) with hfree | htaint
      · rw [sessionLocked_eq] at hfree
        exact Or.inl hfree
      · rw [sessionTainted_eq] at htaint
        exact Or.inr htaint
    · have hquery := (inQuery_iff ha).2 ((hturn.enters.inside rfl).2 hask)
      refine hc.2.1 i (inSection_lt ha hquery) hquery ((refused_iff ha').2 ?_)
      exact hturn.inside.2 (by rw [ht]; rfl)
  rcases hgood with ⟨φ, ha, hI⟩
  refine ⟨fun index e he hq => ?_, fun e w' hstep hc hw' h hnot hgives => ?_⟩
  · rw [epochOf_eq] at he
    obtain rfl := hI.solo.single index _ (records_some he)
    have hsome : (View.of w.shared).holder ≠ none := by
      rw [holder_of he]
      exact fun hnone => hq (Option.map_eq_none_iff.1 hnone)
    rcases hI.live hsome with ⟨k, hk⟩
    exact ⟨k, (inQuery_iff ha).2 hk,
      fun l hl => hI.unique l k ((inQuery_iff ha).1 hl) hk⟩
  · rcases step_moves (legal_of_solo hc.1) ha hw hstep with
      ⟨x, hx, -⟩ | ⟨-, φ', ha', ⟨rfl, -⟩ | ⟨i, rpc, ph, v₀, t, hturn⟩⟩
    · rw [hw'] at hx
      cases hx
    · exact absurd ((givesWay_iff ha).2 ((givesWay_iff ha').1 hgives)) hnot
    · have hhi : h = i := by
        by_contra hne
        refine hnot ((givesWay_iff ha).2 ?_)
        exact (hturn.elsewhere (fun _ => rfl) hne).1 ((givesWay_iff ha').1 hgives)
      subst hhi
      rcases turn_hands hturn hc.1 ha hI (hturn.inside.1 ((givesWay_iff ha').1 hgives)) with
        ⟨g, j, hgh, hφg, hq⟩
      have hqueued : PhaseIn Phase.queues φ g := phaseIn_of hφg rfl
      refine ⟨g, hgh, ?_, (awaitsInputs_iff ha).2 hqueued, (awaitsInputs_iff ha').2 ?_⟩
      · rw [← view_queue, hq, List.getLast?_append]
        rfl
      · exact (hturn.elsewhere (fun _ => rfl) hgh).2 hqueued

end ServerManager

/-! ### On the sample session -/

namespace ServerManager

open Coroutine

attribute [local instance] keccak256

/-- A query fails in its first call, and its value is still there when its
    handler is gone. With the lock stolen, AdvanceState finds the query of a
    handler that is not parked, and the null coroutine in it takes the process
    down. -/
theorem query_left_behind : (∃ w,
    Runs step (fun _ e _ => e.only MachineRpc) (idle sampleContext) w ∧ w.halted = none ∧
      w.handlers 0 = none ∧ ¬ BatonValid w) ∧
    ∃ w, Runs step (fun _ e _ => e.only MachineRpc) (idle sampleContext) w ∧
      w.halted = some .nullCoroutine := by
  refine ⟨?_, ?_⟩
  · obtain ⟨w, hrun, hw⟩ : ∃ w, Runs step (fun _ e _ => e.only MachineRpc) (idle sampleContext) w ∧
        (w.halted.isNone && (w.handlers 0).isNone && w.next == 1 &&
          ((epochOf w 0).bind EpochType.pendingQuery).isSome) = true :=
      exists_run (fun _ e _ => e.only MachineRpc)
        [.request (.inspectState []), .failed 0, .answered 0] (fun _ _ _ h => h) (by decide +kernel)
    simp only [Bool.and_eq_true, Option.isNone_iff_eq_none, beq_iff_eq] at hw
    rcases hw with ⟨⟨⟨hhalt, hgone⟩, hnext⟩, hquery⟩
    refine ⟨w, hrun, hhalt, hgone, fun hvalid => ?_⟩
    rcases Option.isSome_iff_exists.1 hquery with ⟨q, hq⟩
    rcases Option.bind_eq_some_iff.1 hq with ⟨e, he, hpending⟩
    rcases hvalid 0 e he (by rw [hpending]; exact Option.some_ne_none q) with ⟨h, hin, -⟩
    -- there is no other handler, so nobody is inside a try block
    rcases runs_good (I := fun _ _ => True) hrun (fun _ _ _ hc => legal_of_solo (solo_of_machine hc))
      (good_idle ⟨_, rfl⟩ trivial) (fun _ _ _ _ _ => trivial) hhalt with ⟨φ, ha, -⟩
    have hlt := inSection_lt ha hin
    rw [hnext, Nat.lt_one_iff] at hlt
    subst hlt
    unfold InQuery InSection at hin
    rw [hgone] at hin
    cases hin
  · obtain ⟨w, hrun, hw⟩ : ∃ w, Runs step (fun _ e _ => e.only MachineRpc) (idle sampleContext) w ∧
        (w.halted == some .nullCoroutine) = true :=
      exists_run (fun _ e _ => e.only MachineRpc)
        (overlappingEvents ++ [.answered 5, .answered 5, .checkIn, .answered 6, .answered 5, .checkIn,
          .answered 7, .answered 5, .resumed])
        (fun _ _ _ h => h) (by decide +kernel)
    exact ⟨w, hrun, beq_iff_eq.1 hw⟩

/-- A query parks behind two inputs, and AdvanceState wakes it up after the
    first. -/
theorem baton_valid_sample : ∃ w w',
    Runs step BatonStep (idle sampleContext) w ∧ InQuery w 2 ∧ BatonValid w ∧
      step w (.answered 0) = some w' ∧ GivesWay w' 0 ∧ HandsToQuery w w' := by
  obtain ⟨w, hrun, hw⟩ : ∃ w, Runs step BatonStep (idle sampleContext) w ∧
      (w.halted.isNone && decide (InQuery w 2) && (step w (.answered 0)).any fun w' =>
        w'.halted.isNone && decide (GivesWay w' 0) && decide (BatonStep w (.answered 0) w')) = true :=
    exists_run (fun w e w' => decide (BatonStep w e w'))
      [.request (.advanceState (sampleRequest 0)), .answered 0,
        .request (.advanceState (sampleRequest 1)), .answered 1, .request (.inspectState []),
        .answered 0, .checkIn, .answered 3, .answered 0, .checkIn, .answered 4]
      (fun _ _ _ h => of_decide_eq_true h) (by decide +kernel)
  simp only [Bool.and_eq_true, Option.isNone_iff_eq_none, decide_eq_true_eq,
    Option.any_eq_true] at hw
  rcases hw with ⟨⟨hhalt, hquery⟩, w', hstep, ⟨hhalt', hgives⟩, hc⟩
  rcases baton_valid freshSession_sample hrun hhalt with ⟨hvalid, hhands⟩
  exact ⟨w, w', hrun, hquery, hvalid, hstep, hgives, hhands _ _ hstep hc hhalt'⟩

end ServerManager
