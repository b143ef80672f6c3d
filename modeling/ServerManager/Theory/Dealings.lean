import ServerManager.Theory.Draining

/-!
# Dealing with a Request

What a request makes of the world by the time it has been dealt with: the books
of a session that is not tainted are in order, the index of its active epoch has
not gone back, and when the first answer was an error nothing has changed but the
reason why the session was locked last. `Dealt` says all of it, as a relation
between what a request can see when it comes and what is there when it is gone.

The rules here are for the parts that the handlers share: finding the session,
locking it, answering, and turning an exception into an error.

## Main definitions

* `InOrder`: The books are in order, and nobody waits for a check-in.
* `Later`: No active epoch index has gone back.
* `Unchanged`, `Spared`: Nothing has changed that a client can see.
* `Dealt`: What becomes of a request.

## Theorems

* `Later.trans`: The index does not go back over many requests either.
* `ensures_turns`: A part of a handler that only works on the session.
* `ensures_findSession`, `ensures_withSessionLock`, `ensures_answered`: The
  parts the handlers share.
-/

namespace ServerManager

open Coroutine

variable [Keccak]

/-- What can be relied on between two requests. -/
structure InOrder (server : Server) (v : Own) : Prop where
  waiting : v.waiting = none
  fresh : ∀ ref x, v.session = some (ref, x) → ref < v.generation
  books : ∀ ref x, v.session = some (ref, x) → x.tainted = false → SessionKept (Gathered server) x

/-- A session that is still there has not gone back to an earlier epoch. -/
structure Later (v v' : Own) : Prop where
  generation : v.generation ≤ v'.generation
  session : ∀ ref x', v'.session = some (ref, x') → v.generation ≤ ref ∨
    ∃ x, v.session = some (ref, x) ∧ x.activeEpochIndex ≤ x'.activeEpochIndex

/-- The session without the reason it was locked for. -/
def SessionType.unmarked (x : SessionType) : SessionType := { x with sessionLockReason := "" }

/-- The session locked for a request. -/
abbrev SessionType.lockedFor (x : SessionType) (reason : String) : SessionType :=
  { x with sessionLock := true, sessionLockReason := reason }

/-- The sessions and the waits are the same, but for the reason of the last lock. -/
structure Unchanged (v v' : Own) : Prop where
  session : v'.session.map (fun s => (s.1, s.2.unmarked)) =
    v.session.map fun s => (s.1, s.2.unmarked)
  waiting : v'.waiting = v.waiting

/-- Nothing has changed, and nothing was answered. -/
structure Spared (v v' : Own) : Prop extends Unchanged v v' where
  generation : v'.generation = v.generation
  answers : v'.answers = v.answers

/-- What becomes of a request. A query that fails can taint its session, and it is
    the only request of which nothing is said when it is answered with an error. -/
structure Dealt (server : Server) (rpc : Rpc) (v v' : Own) : Prop where
  order : InOrder server v'
  later : Later v v'
  answered : ∃ more : List Answer, v'.answers = v.answers ++ more.map (Prod.mk rpc) ∧
    ∀ status rest, more = .finishWithError status :: rest →
      (∀ payload, rpc ≠ .inspectState payload) → Unchanged v v'

/-! ### The relations -/

section Relations

variable {server : Server} {v v' v'' : Own} {rpc : Rpc}

omit [Keccak] in
theorem Later.refl (v : Own) : Later v v :=
  ⟨Nat.le_refl _, fun _ x hx => Or.inr ⟨x, hx, UInt64.le_refl _⟩⟩

omit [Keccak] in
/-- Over many requests the index does not go back either. -/
theorem Later.trans (h₁ : Later v v') (h₂ : Later v' v'') : Later v v'' := by
  refine ⟨Nat.le_trans h₁.generation h₂.generation, fun ref x'' hx'' => ?_⟩
  rcases h₂.session ref x'' hx'' with hnew | ⟨x', hx', hle'⟩
  · exact Or.inl (Nat.le_trans h₁.generation hnew)
  · rcases h₁.session ref x' hx' with hnew | ⟨x, hx, hle⟩
    · exact Or.inl hnew
    · exact Or.inr ⟨x, hx, UInt64.le_trans hle hle'⟩

omit [Keccak] in
/-- The session of one that was spared. -/
theorem Unchanged.found (h : Unchanged v v') {ref : Nat} {x' : SessionType}
    (hx' : v'.session = some (ref, x')) : ∃ x, v.session = some (ref, x) ∧ x'.unmarked = x.unmarked := by
  have hmap := h.session
  rw [hx', Option.map_some] at hmap
  cases hx : v.session with
  | none => simp [hx] at hmap
  | some p =>
      simp only [hx, Option.map_some, Option.some.injEq, Prod.mk.injEq] at hmap
      exact ⟨p.2, by rw [hmap.1], hmap.2⟩

omit [Keccak] in
/-- What two sessions have in common that only differ in the reason of the last lock. -/
theorem unmarked_fields {x y : SessionType} (h : x.unmarked = y.unmarked) :
    x.tainted = y.tainted ∧ x.epochs = y.epochs ∧ x.activeEpochIndex = y.activeEpochIndex ∧
      x.memoryRange = y.memoryRange := by
  simp only [SessionType.unmarked, SessionType.mk.injEq] at h
  simp [h]

omit [Keccak] in
theorem Spared.refl (v : Own) : Spared v v := ⟨⟨rfl, rfl⟩, rfl, rfl⟩

theorem Spared.order (h : Spared v v') (hv : InOrder server v) : InOrder server v' := by
  refine ⟨h.waiting.trans hv.waiting, fun ref x' hx' => ?_, fun ref x' hx' htaint => ?_⟩
  · rcases h.found hx' with ⟨x, hx, -⟩
    rw [h.generation]
    exact hv.fresh ref x hx
  · rcases h.found hx' with ⟨x, hx, hsame⟩
    rcases unmarked_fields hsame with ⟨htainted, hepochs, hindex, hranges⟩
    exact (hv.books ref x hx (htainted ▸ htaint)).congr hepochs hindex hranges

omit [Keccak] in
theorem Spared.later (h : Spared v v') : Later v v' := by
  refine ⟨Nat.le_of_eq h.generation.symm, fun ref x' hx' => ?_⟩
  rcases h.found hx' with ⟨x, hx, hsame⟩
  exact Or.inr ⟨x, hx, UInt64.le_of_eq (unmarked_fields hsame).2.2.1.symm⟩

/-- The view with one more answer. -/
def Own.answer (v : Own) (rpc : Rpc) (answer : Answer) : Own :=
  { v with answers := v.answers ++ [(rpc, answer)] }

omit [Keccak] in
@[simp]
theorem put_answer {ref : Nat} {x : SessionType} {answer : Answer} :
    (v.put ref x).answer rpc answer = (v.answer rpc answer).put ref x := rfl

/-- Only what has to do with the session matters. -/
theorem InOrder.answer {q : Rpc} (hv : InOrder server v) (answer : Answer) :
    InOrder server (v.answer q answer) := ⟨hv.waiting, hv.fresh, hv.books⟩

omit [Keccak] in
theorem Later.answer {q : Rpc} (h : Later v v') (answer : Answer) : Later v (v'.answer q answer) :=
  ⟨h.generation, h.session⟩

/-- A request that nothing became of. -/
theorem dealt_ignored (hv : InOrder server v) : Dealt server rpc v v :=
  ⟨hv, .refl v, [], by simp, fun _ _ h => by cases h⟩

/-- A request that was answered with an error before anything changed. -/
theorem Spared.dealt (h : Spared v v') (hv : InOrder server v) (status : Status) :
    Dealt server rpc v (v'.answer rpc (.finishWithError status)) := by
  refine ⟨(h.order hv).answer _, h.later.answer _, [.finishWithError status], ?_, ?_⟩
  · show v'.answers ++ _ = _
    rw [h.answers]
    rfl
  · intro _ _ _ _
    exact ⟨h.session, h.waiting⟩

/-- A request whose first answer was not an error. -/
theorem dealt_answered (hv : InOrder server v') (hl : Later v v') {a : Response}
    {l : List Answer} (ha : v'.answers = v.answers ++ (rpc, .finish a) :: l.map (Prod.mk rpc)) :
    Dealt server rpc v v' := by
  refine ⟨hv, hl, .finish a :: l, ha, fun status rest' heq => ?_⟩
  cases heq

/-- The session is replaced by one with its books in order. -/
theorem inOrder_put {ref : Nat} {x y : SessionType} (hv : InOrder server (v.put ref x))
    (hy : y.tainted = false → SessionKept (Gathered server) y) : InOrder server (v.put ref y) := by
  refine ⟨hv.waiting, fun ref' z hz => ?_, fun ref' z hz htaint => ?_⟩
  · cases hz
    exact hv.fresh ref _ rfl
  · cases hz
    exact (hy htaint).congr rfl rfl rfl

omit [Keccak] in
theorem later_put {ref : Nat} {x y : SessionType} (hle : x.activeEpochIndex ≤ y.activeEpochIndex) :
    Later (v.put ref x) (v.put ref y) := by
  refine ⟨Nat.le_refl _, fun ref' z hz => Or.inr ?_⟩
  cases hz
  exact ⟨x.placed "", rfl, hle⟩

omit [Keccak] in
theorem spared_put {ref : Nat} {x x' : SessionType} (hx : x'.unmarked = x.unmarked) :
    Spared (v.put ref x) (v.put ref x') := by
  refine ⟨⟨?_, rfl⟩, rfl, rfl⟩
  have hplaced : (x'.placed "").unmarked = (x.placed "").unmarked :=
    congrArg (SessionType.placed · "") hx
  simp [hplaced]

end Relations

/-! ### The parts the handlers share -/

section Rules

variable {server : Server} {ref : Nat} {v : Own} {m : server.State} {x : SessionType}
  {α β : Type}
variable {Q : α → server.State → Own → Prop} {E : Exn → server.State → Own → Prop}

omit [Keccak] in
/-- A part that only works on the session. -/
theorem ensures_turns {R : β → server.State → SessionType → Prop}
    {T : Exn → server.State → SessionType → Prop} {c : Handler β} {f : β → Handler α}
    (hc : Turns server ref v R T c m x)
    (hf : ∀ b m' x', R b m' x' → (f b).Ensures (crew server).toSetting Q E m' (v.put ref x'))
    (hE : ∀ e m' x', T e m' x' → E e m' (v.put ref x')) :
    (c >>= f).Ensures (crew server).toSetting Q E m (v.put ref x) := by
  refine Prog.ensures_bind (Prog.ensures_mono hc ?_ ?_)
  · rintro b m' v' ⟨x', rfl, hR⟩
    exact hf b m' x' hR
  · rintro e m' v' ⟨x', rfl, he⟩
    exact hE e m' x' he

omit [Keccak] in
theorem ensures_ite {b : Prop} [Decidable b] {c d : Handler α}
    (hc : b → c.Ensures (crew server).toSetting Q E m v)
    (hd : ¬ b → d.Ensures (crew server).toSetting Q E m v) :
    (if b then c else d).Ensures (crew server).toSetting Q E m v := by
  by_cases hb : b
  · rw [if_pos hb]
    exact hc hb
  · rw [if_neg hb]
    exact hd hb

omit [Keccak] in
theorem ensures_finish {Q : Unit → server.State → Own → Prop} {rpc : Rpc} {response : Response}
    (hrpc : rpc.aide = false) (hQ : Q () m (v.answer rpc (.finish response))) :
    (finish rpc response).Ensures (crew server).toSetting Q E m v := by
  refine Prog.ensures_bind (Prog.ensures_modify (F := fun v => v.answer rpc (.finish response))
    (fun s => ?_) ?_)
  · simp [crew, own, Own.answer, List.filter_append, hrpc]
  · exact Prog.ensures_yield rfl fun r m' hr => Prog.ensures_pure (by rw [show m' = m from hr]; exact hQ)

omit [Keccak] in
theorem ensures_finishWithError {Q : Unit → server.State → Own → Prop} {rpc : Rpc}
    {status : Status} (hrpc : rpc.aide = false)
    (hQ : Q () m (v.answer rpc (.finishWithError status))) :
    (finishWithError rpc status).Ensures (crew server).toSetting Q E m v := by
  refine Prog.ensures_bind (Prog.ensures_modify
    (F := fun v => v.answer rpc (.finishWithError status)) (fun s => ?_) ?_)
  · simp [crew, own, Own.answer, List.filter_append, hrpc]
  · exact Prog.ensures_yield rfl fun r m' hr => Prog.ensures_pure (by rw [show m' = m from hr]; exact hQ)

omit [Keccak] in
/-- A request that is ignored, or handled. -/
theorem ensures_onArrival {Q : Unit → server.State → Own → Prop} {body : Handler Unit}
    (hignored : Q () m v) (hbody : body.Ensures (crew server).toSetting Q E m v) :
    (onArrival body).Ensures (crew server).toSetting Q E m v := by
  refine Prog.ensures_get fun s _ => ?_
  exact ensures_ite (fun _ => hbody) fun _ => Prog.ensures_pure hignored

omit [Keccak] in
theorem ensures_findSession {notFound : String} {f : Nat → Handler α}
    (hnone : v.session = none → ∀ status, E (.finishErrorYieldNone status) m v)
    (hsome : ∀ ref x, v.put ref x = v →
      (f ref).Ensures (crew server).toSetting Q E m (v.put ref x)) :
    (findSession notFound >>= f).Ensures (crew server).toSetting Q E m v := by
  refine Prog.ensures_bind (Prog.ensures_bind (Prog.ensures_get fun s hs => Prog.ensures_pure ?_))
  have hown : own s = v := hs
  cases hsession : s.session with
  | none =>
      have hv : v.session = none := by rw [← hown]; simp [own, hsession]
      exact Prog.ensures_throw (hnone hv _)
  | some p =>
      have hv : v.session = some (p.1, p.2.placed "") := by rw [← hown]; simp [own, hsession]
      have hput : v.put p.1 (p.2.placed "") = v := by
        rw [Own.put, show (p.2.placed "").placed "" = p.2.placed "" from rfl, ← hv]
      refine Prog.ensures_pure ?_
      have hfound := hsome p.1 (p.2.placed "") hput
      rwa [hput] at hfound

omit [Keccak] in
/-- Writing through a reference whatever is there. -/
theorem ensures_modifySession {Q : Unit → server.State → Own → Prop} {f : SessionType → SessionType}
    (hf : ∀ x address, (f (x.placed address)).placed "" = (f x).placed "")
    (hQ : ∀ x, v.session = some (ref, x) → Q () m (v.put ref (f x))) :
    (modifySession ref f).Ensures (crew server).toSetting Q E m v := by
  intro s hs
  have hown : own s = v := hs
  cases hsession : s.session with
  | none =>
      simp only [modifySession, Prog.After, hsession]
  | some p =>
      by_cases href : p.1 = ref
      · subst href
        have hv : v.session = some (p.1, p.2.placed "") := by rw [← hown]; simp [own, hsession]
        have hput : v.put p.1 (p.2.placed "") = v := by
          rw [Own.put, show (p.2.placed "").placed "" = p.2.placed "" from rfl, ← hv]
        refine Prog.after_mono (turns_modifySession (m := m) (v := v) (x := p.2.placed "")
          (E := fun _ _ _ => False) (R := fun _ m' x' => m' = m ∧ x' = f (p.2.placed ""))
          (hf _) ⟨rfl, rfl⟩ s (hown.trans hput.symm)) ?_ ?_
        · rintro - m' v' ⟨x', rfl, rfl, rfl⟩
          exact hQ _ hv
        · rintro e m' v' ⟨x', -, hfalse⟩
          exact hfalse.elim
      · simp only [modifySession, Prog.After, hsession, if_neg href]

omit [Keccak] in
/-- A scope with the lock of a session that is free. The lock is cleared at the end
    if the session is still there. -/
theorem ensures_autoLock {Q : Unit → server.State → Own → Prop} {name : String}
    {body : Handler Unit} (hopen : x.sessionLock = false)
    (hbody : body.Ensures (crew server).toSetting
      (fun _ m' v' => ∀ x', v'.session = some (ref, x') →
        Q () m' (v'.put ref (sessionLockField.set false x')))
      (fun e m' v' => ∀ x', v'.session = some (ref, x') →
        E e m' (v'.put ref (sessionLockField.set false x')))
      m (v.put ref (sessionLockField.set true x))) :
    (autoLock sessionLockField ref name body).Ensures (crew server).toSetting Q E m (v.put ref x) := by
  -- the lock is free, so acquiring it does not fail
  refine ensures_turns (R := fun _ m₁ x₁ => m₁ = m ∧ x₁ = sessionLockField.set true x)
    (T := fun _ _ _ => False) ?_ ?_ fun _ _ _ hfalse => hfalse.elim
  · refine turns_bind (turns_getSession fun address => turns_ite (fun htaken => ?_) fun _ => ?_)
    · have htaken' : x.sessionLock = true := htaken
      rw [hopen] at htaken'
      cases htaken'
    · exact turns_modifySession (fun _ => rfl) ⟨rfl, rfl⟩
  · rintro - m₁ x₁ ⟨rfl, rfl⟩
    refine Prog.ensures_andFinally (Prog.ensures_mono hbody ?_ ?_)
    · intro _ m₂ v₂ hQ
      exact ensures_modifySession (fun _ _ => rfl) hQ
    · intro e m₂ v₂ hE
      exact ensures_modifySession (fun _ _ => rfl) hE

omit [Keccak] in
/-- The scope of the lock of a session: it is refused, or it runs locked. -/
theorem ensures_withSessionLock {Q : Unit → server.State → Own → Prop} {rpc peer : String}
    {body : Handler Unit}
    (hbusy : x.sessionLock = true → ∀ status, E (.finishErrorYieldNone status) m (v.put ref x))
    (hbody : x.sessionLock = false → ∀ reason, body.Ensures (crew server).toSetting
      (fun _ m' v' => ∀ x', v'.session = some (ref, x') →
        Q () m' (v'.put ref (sessionLockField.set false x')))
      (fun e m' v' => ∀ x', v'.session = some (ref, x') →
        E e m' (v'.put ref (sessionLockField.set false x')))
      m (v.put ref { x with sessionLock := true, sessionLockReason := reason })) :
    (withSessionLock ref rpc peer body).Ensures (crew server).toSetting Q E m (v.put ref x) := by
  refine ensures_turns (turns_getSession (R := fun y m' x' => m' = m ∧ x' = x ∧
    ∃ address, y = x.placed address) (E := fun _ _ _ => False)
    fun address => ⟨rfl, rfl, address, rfl⟩) ?_ fun _ _ _ hfalse => hfalse.elim
  rintro y m' x' ⟨rfl, rfl, address, rfl⟩
  refine ensures_ite (fun hlocked => Prog.ensures_throw (hbusy hlocked _)) fun hfree => ?_
  have hopen : x'.sessionLock = false := Bool.eq_false_iff.2 hfree
  refine ensures_autoLock hopen (ensures_turns (R := fun _ m₁ x₁ => m₁ = m' ∧
    x₁ = x'.lockedFor (getSessionLockReason rpc peer)) (T := fun _ _ _ => False)
    (turns_modifySession (fun _ => rfl) ⟨rfl, rfl⟩) ?_ fun _ _ _ hfalse => hfalse.elim)
  rintro - m₁ x₁ ⟨rfl, rfl⟩
  exact hbody hopen _

omit [Keccak] in
theorem turns_checkTainted {what : String} {R : Unit → server.State → SessionType → Prop}
    {E : Exn → server.State → SessionType → Prop} (hR : x.tainted = false → R () m x)
    (hE : ∀ status, E (.finishErrorYieldNone status) m x) :
    Turns server ref v R E (checkTainted ref what) m x := by
  refine turns_bind (turns_getSession fun address => ?_)
  refine turns_ite (fun _ => turns_throw (hE _)) fun hclean => turns_pure (hR ?_)
  exact Bool.eq_false_iff.2 hclean

omit [Keccak] in
theorem turns_checkEpochOverflow {R : Unit → server.State → SessionType → Prop}
    {E : Exn → server.State → SessionType → Prop}
    (hR : x.activeEpochIndex ≠ 0xFFFFFFFFFFFFFFFF → R () m x)
    (hE : ∀ status, E (.finishErrorYieldNone status) m x) :
    Turns server ref v R E (checkEpochOverflow ref) m x := by
  refine turns_bind (turns_getSession fun address => ?_)
  exact turns_ite (fun _ => turns_throw (hE _)) fun hroom => turns_pure (hR hroom)

omit [Keccak] in
/-- A request that looks for its session and answers every error. What becomes of it
    is `D`: when it is ignored, when an exception leaves its body with nothing changed,
    and when the body returns. -/
theorem ensures_answered {rpc : Rpc} {notFound : String} {f : Nat → Handler Unit}
    {D : Own → Own → Prop} (hrpc : rpc.aide = false) (hignored : D v v)
    (hrefused : ∀ v' status, Spared v v' → D v (v'.answer rpc (.finishWithError status)))
    (hf : ∀ ref x, v.put ref x = v → (f ref).Ensures (crew server).toSetting
      (fun _ _ v' => D (v.put ref x) v') (fun _ _ v' => Spared (v.put ref x) v') m (v.put ref x)) :
    (onArrival (answerErrors rpc (findSession notFound >>= f))).Ensures (crew server).toSetting
      (fun _ _ v' => D v v') (fun _ _ _ => True) m v := by
  have hbody : (findSession notFound >>= f).Ensures (crew server).toSetting
      (fun _ _ v' => D v v') (fun _ _ v' => Spared v v') m v := by
    refine ensures_findSession (fun _ _ => .refl v) fun ref x hput => ?_
    have hfound := hf ref x hput
    rwa [hput] at hfound ⊢
  refine ensures_onArrival hignored (Prog.ensures_tryCatch (Prog.ensures_mono hbody (fun _ _ _ h => h) ?_))
  intro e m' v' hspared
  cases e with
  | finishErrorYieldNone status => exact ensures_finishWithError hrpc (hrefused _ _ hspared)
  | taintSession ref status => exact ensures_finishWithError hrpc (hrefused _ _ hspared)
  | stdException what => exact ensures_finishWithError hrpc (hrefused _ _ hspared)

/-- The same, for what is known of every request. -/
theorem ensures_request {rpc : Rpc} {notFound : String} {f : Nat → Handler Unit}
    (hrpc : rpc.aide = false) (hv : InOrder server v)
    (hf : ∀ ref x, InOrder server (v.put ref x) → (f ref).Ensures (crew server).toSetting
      (fun _ _ v' => Dealt server rpc (v.put ref x) v') (fun _ _ v' => Spared (v.put ref x) v')
      m (v.put ref x)) :
    (onArrival (answerErrors rpc (findSession notFound >>= f))).Ensures (crew server).toSetting
      (fun _ _ v' => Dealt server rpc v v') (fun _ _ _ => True) m v :=
  ensures_answered hrpc (dealt_ignored hv) (fun _ status h => h.dealt hv status)
    fun ref x hput => hf ref x (hput.symm ▸ hv)

omit [Keccak] in
/-- An error in the locked session, before anything was written. -/
theorem locked_spared (hopen : x.sessionLock = false) (reason : String) (x' : SessionType)
    (hx' : (v.put ref { x with sessionLock := true, sessionLockReason := reason }).session =
      some (ref, x')) :
    Spared (v.put ref x) ((v.put ref { x with
      sessionLock := true
      sessionLockReason := reason }).put ref (sessionLockField.set false x')) := by
  cases hx'
  show Spared (v.put ref x)
    (v.put ref { x with sessionLock := false, sessionLockReason := reason })
  exact spared_put (by simp [SessionType.unmarked, hopen])

/-- An answer in the locked session. -/
theorem locked_dealt {rpc : Rpc} {y : SessionType} {response : Response}
    (hv : InOrder server (v.put ref x))
    (hbooks : y.tainted = false → SessionKept (Gathered server) y)
    (hle : x.activeEpochIndex ≤ y.activeEpochIndex) (x' : SessionType)
    (hx' : ((v.put ref y).answer rpc (.finish response)).session = some (ref, x')) :
    Dealt server rpc (v.put ref x) (((v.put ref y).answer rpc (.finish response)).put ref
      (sessionLockField.set false x')) := by
  cases hx'
  refine dealt_answered (l := []) ?_ ?_ rfl
  · exact (inOrder_put (y := sessionLockField.set false (y.placed "")) hv fun htaint =>
      (hbooks htaint).congr rfl rfl rfl).answer _
  · exact (later_put (y := sessionLockField.set false (y.placed "")) hle).answer _

end Rules

end ServerManager
