import ServerManager.Theory.Arrivals

/-!
# Sequences of Requests

The runs in which each request has been dealt with before the next one comes, from
the start of the manager on. Between two requests the books of the session are in
order, and its active epoch is not an earlier one than before; this is what `Dealt`
says of one request, carried along the run.

Two kinds of runs are of interest. Over a whole run it is the books that matter.
Over the part of a run that belongs to one request, it is what the handler of that
request ensures.

## Main definitions

* `Dealing`: No request is at work, or one is that leaves the books in order.
* `Handling`: One request is at work, and what it will leave.

## Theorems

* `Dealing.next`, `Dealing.atRest`: One event, and what holds between requests.
* `handling_arrive`, `Handling.next`, `Handling.atRest`: The same for one request.
-/

namespace ServerManager

open Coroutine

variable [Keccak]

section Sequences

variable {server : Server} {base : Own} {w w' : Manager} {e : Event} {m m' : server.State}

/-- No request is at work, or one is that will leave the books in order. The session
    has not gone back behind `base`. -/
def Dealing (server : Server) (base : Own) (w : Manager) (m : server.State) : Prop :=
  w.halted ≠ none ∨ Solo (crew server) (fun _ v => InOrder server v ∧ Later base v) w m

/-- The manager as it starts. -/
theorem dealing_idle {hctx : HandlerContext} (hblank : Blank hctx)
    (hwaiting : hctx.waitingCheckin = none) : Dealing server (own hctx) (idle hctx) m := by
  have hnone : (own hctx).session = none := by simp [own, hblank.session]
  have hidle : ∀ k p, (idle hctx).handlers k ≠ some p := by
    intro k p hp
    cases hp
  refine Or.inr ⟨fun k p hp => absurd hp (hidle k p),
    Or.inl ⟨fun k p hp => absurd hp (hidle k p), ⟨?_, ?_, ?_⟩, .refl _⟩⟩
  · show (own hctx).waiting = none
    simp [own, hwaiting]
  · intro ref x hx
    exact absurd (hnone.symm.trans hx) (by simp)
  · intro ref x hx
    exact absurd (hnone.symm.trans hx) (by simp)

omit [Keccak] in
/-- With no request in flight there is no worker. -/
theorem solo_atRest {Q : server.State → Own → Prop} (hsolo : Solo (crew server) Q w m)
    (hrest : AtRest w) : Q m (own w.shared) ∧
      ∀ k p, w.handlers k = some p → k < w.next ∧ (crew server).Aside p := by
  rcases hsolo.crew with ⟨haides, hQ⟩ | ⟨i, p, hp, hworks, -⟩
  · exact ⟨hQ, fun k p hp => ⟨hsolo.filed k p hp, haides k p hp⟩⟩
  · have haide := hrest i (hsolo.filed i p hp)
    rw [hp, Option.all_some] at haide
    exact absurd haide hworks.1

/-- What holds between two requests. -/
theorem Dealing.atRest (h : Dealing server base w m) (hrest : AtRest w) (hrunning : w.halted = none) :
    InOrder server (own w.shared) ∧ Later base (own w.shared) := by
  rcases h with hhalted | hsolo
  · exact absurd hrunning hhalted
  · exact (solo_atRest hsolo hrest).1

/-- Between two requests the comparison can start anew. -/
theorem Dealing.rebase (h : Dealing server base w m) (hrest : AtRest w) :
    Dealing server (own w.shared) w m := by
  rcases h with hhalted | hsolo
  · exact Or.inl hhalted
  · rcases solo_atRest hsolo hrest with ⟨⟨horder, -⟩, hfiled⟩
    exact Or.inr ⟨hsolo.filed, Or.inl ⟨fun k p hp => (hfiled k p hp).2, horder, .refl _⟩⟩

/-- One event of a sequence of requests. -/
theorem Dealing.next (h : Dealing server base w m) (hstep : step w e = some w')
    (hone : OneByOne w e) (hserve : ServedBy server w e m m') : Dealing server base w' m' := by
  rcases h with hhalted | hsolo
  · exact absurd (step_running hstep) hhalted
  · -- a request finds the books in order, and leaves them so
    have hrequest : ∀ {rpc peer fuel env}, rpc.aide = false → AtRest w →
        step w (.arrive rpc peer fuel env) = some w' → Dealing server base w' m := by
      intro rpc peer fuel env hrpc hrest hstep
      rcases solo_atRest hsolo hrest with ⟨⟨horder, hlater⟩, hfiled⟩
      refine solo_arrive hfiled hrpc (Prog.ensures_mono (deals_request hrpc horder) ?_
        fun _ _ _ _ => trivial) hstep
      exact fun _ _ v' hdealt => ⟨hdealt.order, hlater.trans hdealt.later⟩
    cases e with
    | arrive rpc peer fuel env =>
        cases hrpc : rpc.aide with
        | false =>
            cases hserve
            exact hrequest hrpc (hone hrpc) hstep
        | true =>
            refine solo_step hsolo hstep hserve ?_
            rintro _ _ _ _ ⟨⟩
            exact hrpc
    | _ => exact solo_step hsolo hstep hserve (by rintro _ _ _ _ ⟨⟩)

/-! ### One request -/

/-- A request is at work that will leave `D`, or it has been dealt with. -/
def Handling (server : Server) (D : Own → Prop) (w : Manager) (m : server.State) : Prop :=
  w.halted ≠ none ∨ Solo (crew server) (fun _ v => D v) w m

/-- The request comes. -/
theorem handling_arrive {D : Own → Prop} {rpc : Rpc} {peer : String} {fuel : Nat}
    {env : Environment} (h : Dealing server base w m) (hrest : AtRest w) (hrpc : rpc.aide = false)
    (hensures : (handlerOf fuel peer rpc w.next).Ensures (crew server).toSetting
      (fun _ _ v => D v) (fun _ _ _ => True) m (own w.shared))
    (hstep : step w (.arrive rpc peer fuel env) = some w') : Handling server D w' m := by
  rcases h with hhalted | hsolo
  · exact absurd (step_running hstep) hhalted
  · exact solo_arrive (solo_atRest hsolo hrest).2 hrpc hensures hstep

/-- An event that is not a request. -/
theorem Handling.next {D : Own → Prop} (h : Handling server D w m)
    (hstep : step w e = some w') (hserve : ServedBy server w e m m')
    (hrpc : ∀ rpc peer fuel env, e = .arrive rpc peer fuel env → rpc.aide = true) :
    Handling server D w' m' := by
  rcases h with hhalted | hsolo
  · exact absurd (step_running hstep) hhalted
  · exact solo_step hsolo hstep hserve hrpc

omit [Keccak] in
/-- The request has been dealt with. -/
theorem Handling.atRest {D : Own → Prop} (h : Handling server D w m) (hrest : AtRest w)
    (hrunning : w.halted = none) : D (own w.shared) := by
  rcases h with hhalted | hsolo
  · exact absurd hrunning hhalted
  · exact (solo_atRest hsolo hrest).1

end Sequences

end ServerManager
