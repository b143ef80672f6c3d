import ServerManager.Theory.Wakeups

/-!
# Every Segment Keeps the Schedule

A handler that runs does so with the names of all others as they should be, and
parks where nobody is woken up twice. Most segments only take queries away, and
then it goes on with what it had. InspectState goes through its query, and
AdvanceState may take the place of the coroutine in a query, if the one that it
finds there waits.

## Main definitions

* `Found`: AdvanceState finds a coroutine that waits.

## Theorems

* `Running.turns`: The handler goes on, and queries are taken away.
* `Serving.running`: InspectState goes on with its query.
* `scheduled_step`: Every segment keeps the schedule.
-/

namespace ServerManager

open Coroutine

section Turns

variable {φ : HandlerId → Option Post} {T T' : Callbacks} {n i : HandlerId} {ph ph' : Post}
  {rpc : Rpc} {ref : Nat}

theorem thins_refl (hs : Scheduled φ T n) : Thins φ T T := by
  rcases T with ⟨table, generation, queue⟩
  cases table with
  | none => exact .gone
  | some d =>
      have hkept : Thins φ ⟨some d, generation, queue⟩
          { (⟨some d, generation, queue⟩ : Callbacks) with table := some d } :=
        .kept rfl rfl (UInt64.le_refl _) (fun _ => Or.inl rfl)
          (fun j hj => (hs.asked d j rfl hj).2) (Or.inl rfl)
      exact hkept

/-- A handler that runs can be parked, unless it is to wait in line. -/
theorem Running.park (hr : Running φ T n i ph) (hline : ∀ ref k, ph ≠ .held ref (.queued k)) :
    Scheduled (Function.update φ i (some ph)) T n := by
  refine scheduled_park hr.absent hr.scheduled ⟨fun h => absurd h hr.unqueued,
    fun h => absurd h hr.unowed, hr.owes, hr.ref, hr.asked, hr.alone,
    fun d j _ _ hph => absurd hph (hline d.ref j), fun d j _ _ hph => absurd hph (hline d.ref j),
    fun B j hB hq => absurd hq (hr.unserved B j hB),
    fun d j ref k _ _ hph => absurd hph (hline ref k), hr.started⟩

/-- A handler that is over is filed nowhere. -/
theorem Running.over (hr : Running φ T n i ph) : Scheduled (Function.update φ i none) T n := by
  have hsame : Function.update φ i none = φ := by
    rw [← hr.absent, Function.update_eq_self]
  rw [hsame]
  exact hr.scheduled

theorem Running.mono {n' : HandlerId} (hr : Running φ T n i ph) (hn : n ≤ n') :
    Running φ T n' i ph :=
  ⟨hr.absent, hr.scheduled.mono hn, hr.unqueued, hr.unowed, hr.unserved, hr.fresh, hr.owes, hr.ref,
    hr.asked, hr.alone, hr.served, hr.started⟩

/-- The handler goes on, and queries are taken away. -/
theorem Running.turns (hr : Running φ T n i ph) (ht : Thins φ T T') (hfresh : ph' ≠ .fresh)
    (howes : ph'.owes = none) (hasks : ph'.asks = none)
    (hstart : ∀ ref waiting, ph' ≠ .starting ref waiting)
    (href : ∀ ref, ph'.ref = some ref → ref < T.generation ∧ ¬ Starting φ ref) :
    Running φ T' n i ph' where
  absent := hr.absent
  scheduled := ht.scheduled hr.scheduled
  unqueued := ht.queue ▸ hr.unqueued
  unowed := hr.unowed
  unserved B j hB := ht.queue ▸ hr.unserved B j (ht.lined hB)
  fresh h := absurd h hfresh
  owes a ha := by
    rw [howes] at ha
    cases ha
  ref ref h := ht.generation ▸ href ref h
  asked d j _ h := by
    rw [hasks] at h
    cases h
  alone ref j h := by
    rw [hasks] at h
    cases h
  served d j a _ h := by
    rw [h] at hasks
    cases hasks
  started ref waiting h := absurd h (hstart ref waiting)

/-- The same, for a phase in which the handler has nothing to do with the session. -/
theorem Running.rests (hr : Running φ T n i ph) (ht : Thins φ T T') (hfresh : ph' ≠ .fresh)
    (href : ph'.ref = none) : Running φ T' n i ph' := by
  cases ph' with
  | held ref place => cases href
  | starting ref waiting => cases href
  | fresh => exact absurd rfl hfresh
  | _ =>
      exact hr.turns ht hfresh rfl rfl (fun _ _ => Post.noConfusion) fun _ h => nomatch h

theorem relocks_keeps {d' : QueryTable} (hT : Relocks ref T T') (hd' : T'.table = some d') :
    ∃ d, T.table = some d ∧ d'.ref = d.ref ∧ d'.active = d.active ∧ d'.queries = d.queries := by
  rcases hT with rfl | ⟨d, lock, hd, -, rfl⟩
  · exact ⟨d', hd', rfl, rfl, rfl⟩
  · cases hd'
    exact ⟨d, hd, rfl, rfl, rfl⟩

/-! ### Handlers that borrow the session -/

/-- A handler that is let into a session is not there while it is being started. -/
theorem Admitted.reference (hin : Admitted ref ph T) (hr : Running φ T n i ph) :
    ref < T.generation ∧ ¬ Starting φ ref := by
  cases hin with
  | fresh hd href hlock =>
      subst href
      refine ⟨hr.scheduled.session _ hd, ?_⟩
      rintro ⟨D, waiting, hD⟩
      have hlocked := (hr.scheduled.started D _ waiting hD).1 _ hd rfl
      rw [hlock] at hlocked
      cases hlocked
  | held hplain => exact hr.ref ref rfl

theorem thins_relocks (hs : Scheduled φ T n) (hT : Relocks ref T T') (hfree : ¬ Starting φ ref) :
    Thins φ T T' := by
  rcases hT with rfl | ⟨d, lock, hd, rfl, rfl⟩
  · exact thins_refl hs
  · exact .kept hd rfl (UInt64.le_refl _) (fun _ => Or.inl rfl) (fun j hj => (hs.asked d j hd hj).2)
      (Or.inr hfree)

theorem Alters.thins (hT : Alters ref rpc ph T T') (hs : Scheduled φ T n)
    (hfree : ¬ Starting φ ref)
    (hwrap : ∀ request d, rpc = .finishEpoch request → ph = .held ref .storing →
      T.table = some d → d.active ≠ 0xFFFFFFFFFFFFFFFF) : Thins φ T T' := by
  cases hT with
  | relock hT => exact thins_relocks hs hT hfree
  | @delete index _ _ d lock hd href hne =>
      subst href
      refine .kept hd rfl (UInt64.le_refl _) (fun j => ?_) (fun j hj hactive => ?_) (Or.inr hfree)
      · dsimp only
        by_cases hj : j = index
        · subst hj
          exact Or.inr (Function.update_self ..)
        · exact Or.inl (Function.update_of_ne hj ..)
      · dsimp only at hactive ⊢
        rw [Function.update_of_ne (hactive ▸ hne)]
        exact (hs.asked d j hd hj).2 hactive
  | @advance request _ _ d lock hd href hph =>
      subst href
      have hmax : d.active ≠ 0xFFFFFFFFFFFFFFFF := by
        rcases hph with ⟨-, hmax⟩ | hph
        · exact hmax
        · exact hwrap request d rfl hph hd
      have hlt : d.active.toNat + 1 < 2 ^ 64 := by
        have hne : d.active.toNat ≠ 2 ^ 64 - 1 := fun h => hmax (UInt64.toNat_inj.1 h)
        have hbound := d.active.toNat_lt
        omega
      have hsucc : (d.active + 1).toNat = d.active.toNat + 1 := by
        rw [UInt64.toNat_add, UInt64.toNat_one, Nat.mod_eq_of_lt hlt]
      refine .kept hd rfl ?_ (fun j => ?_) (fun j hj hactive => ?_) (Or.inr hfree)
      · rw [UInt64.le_iff_toNat_le, hsucc]
        exact Nat.le_succ _
      · dsimp only
        by_cases hj : j = d.active + 1
        · subst hj
          exact Or.inr (Function.update_self ..)
        · exact Or.inl (Function.update_of_ne hj ..)
      · -- nobody asks for a query in an epoch that is yet to come
        have hle := (hs.asked d j hd hj).1
        rw [UInt64.le_iff_toNat_le, hactive, hsucc] at hle
        omega
  | erase => exact .gone

/-! ### AdvanceState lets a query in -/

/-- AdvanceState that works on inputs finds its own name in the query, or that of a
    handler that waits in line. -/
def Found (φ : HandlerId → Option Post) (i : HandlerId) (rpc : Rpc) (ph : Post)
    (s : HandlerContext) : Prop :=
  ∀ request d index g, rpc = .advanceState request → (Callbacks.of s).table = some d →
    Admitted d.ref ph (Callbacks.of s) → Works request d.ref ph s →
      index = request.activeEpochIndex ∨ index = d.active → d.queries index = some (some g) →
        g = i ∨ ∃ ref k, φ g = some (.held ref (.queued k))

theorem Running.handsOver {d : QueryTable} {lock : Bool} {index : UInt64}
    {coroutine : Option HandlerId} (hr : Running φ T n i ph) (hin : i < n)
    (hd : T.table = some d) (hq : d.queries index = some coroutine)
    (hheld : d.ref < T.generation ∧ ¬ Starting φ d.ref)
    (hph' : ph' = .held d.ref .handedOff ∨ ph' = .leaving)
    (hfound : ∀ g, coroutine = some g → g = i ∨ ∃ ref k, φ g = some (.held ref (.queued k))) :
    Scheduled (Function.update φ i (some ph')) { T with
      table := some { d with
        lock := lock
        queries := Function.update d.queries index (some (some i)) }
      queue := T.queue ++ [coroutine] } n := by
  have hrun : Running φ T n i ph' := by
    rcases hph' with rfl | rfl
    · refine hr.turns (thins_refl hr.scheduled) Post.noConfusion rfl rfl
        (fun _ _ => Post.noConfusion) ?_
      rintro ref' href'
      cases href'
      exact hheld
    · exact hr.rests (thins_refl hr.scheduled) Post.noConfusion rfl
  have hresting : ph'.resting = true := by
    rcases hph' with rfl | rfl
    · rfl
    · rfl
  have hline : ∀ ref k, ph' ≠ .held ref (.queued k) := by
    rintro ref' k rfl
    cases hresting
  have howes : ph'.owes = none := by
    rcases hph' with rfl | rfl
    · rfl
    · rfl
  have hstart : ∀ ref waiting, ph' ≠ .starting ref waiting := by
    rintro ref' waiting rfl
    cases hresting
  refine scheduled_handOver (hrun.park hline) hd hq ⟨ph', Function.update_self .., hresting⟩ hin
    hr.unqueued (fun ho => ?_) (fun B j hB => ?_) (fun g hg => ?_) ?_
  · rcases (owed_park hr.absent).1 ho with h | h
    · rw [howes] at h
      cases h
    · exact hr.unowed h
  · rcases (lined_park hr.absent).1 hB with ⟨-, d', -, h, -⟩ | hB
    · exact absurd h (hline d'.ref j)
    · exact hr.unserved B j hB
  · rcases hfound g hg with rfl | ⟨ref', k, hgφ⟩
    · exact Or.inl rfl
    · have hne : g ≠ i := by
        rintro rfl
        rw [hr.absent] at hgφ
        cases hgφ
      exact Or.inr ⟨ref', k, by rw [Function.update_of_ne hne]; exact hgφ⟩
  · rintro ⟨D, waiting, hD⟩
    rcases (park_iff hr.absent).1 hD with ⟨-, h⟩ | hD
    · exact hstart d.ref waiting h.symm
    · exact hheld.2 ⟨D, waiting, hD⟩

/-! ### InspectState -/

/-- InspectState finds the session unlocked, and no query in the active epoch. -/
theorem Running.unasked {d : QueryTable} (hr : Running φ T n i ph) (hd : T.table = some d)
    (hlock : d.lock = false) (hfree : d.queries d.active = none) :
    ¬ Starting φ d.ref ∧ ¬ AskedIn φ d.ref d.active := by
  constructor
  · rintro ⟨D, waiting, hD⟩
    have hlocked := (hr.scheduled.started D _ waiting hD).1 d hd rfl
    rw [hlock] at hlocked
    cases hlocked
  · intro hask
    exact (hr.scheduled.asked d d.active hd hask).2 rfl hfree

/-- InspectState waits in line. -/
theorem Running.lines {d : QueryTable} {lock : Bool} (hr : Running φ T n i .fresh) (hin : i < n)
    (hd : T.table = some d) (hlock : d.lock = false) (hfree : d.queries d.active = none) :
    Scheduled (Function.update φ i (some (.held d.ref (.queued d.active)))) { T with
      table := some { d with
        lock := lock
        queries := Function.update d.queries d.active (some (some i)) } } n := by
  rcases hr.unasked hd hlock hfree with ⟨hstart, hask⟩
  refine scheduled_park hr.absent (scheduled_set hr.scheduled hd hask hstart fun a ha => ?_)
    ⟨fun h => absurd h hr.unqueued, fun h => absurd h hr.unowed, fun a ha => (nomatch ha),
      fun ref href => ?_, fun d₁ j hd₁ hj => ?_, fun ref j hj => ?_, fun d₁ j co hd₁ hph hj _ => ?_,
      fun _ _ _ _ _ _ hq => absurd hq hr.unqueued, fun B j hB hq => ?_,
      fun d₁ j ref k hd₁ hj hph => ?_, fun _ _ hph => nomatch hph⟩
  · cases ha
    refine ⟨hin, fun ref k hφ => ?_⟩
    rw [hr.absent] at hφ
    cases hφ
  · cases href
    exact ⟨hr.scheduled.session d hd, hstart⟩
  · cases hd₁
    cases hj
    refine ⟨UInt64.le_refl _, fun _ => ?_⟩
    dsimp only
    rw [Function.update_self]
    exact Option.some_ne_none _
  · cases hj
    exact hask
  · cases hd₁
    cases hph
    dsimp only at hj
    rw [Function.update_self] at hj
    exact (Option.some.inj hj).symm
  · exact absurd hq (hr.unserved B j (lined_set hd hask hB).2)
  · cases hd₁
    cases hph
    dsimp only at hj
    refine ⟨rfl, ?_, hr.unqueued⟩
    by_contra hne
    rw [Function.update_of_ne (Ne.symm hne)] at hj
    exact hr.fresh rfl d j hd hj

/-- InspectState goes on with its query. -/
theorem Serving.running {index : UInt64} {coroutine : Option HandlerId}
    (hS : Serving ref index coroutine ph T T') (hr : Running φ T n i ph) :
    Running φ T' n i (.held ref (.serving index coroutine)) := by
  have hplace : ∀ ref ref' k co, Post.held ref (.serving index co) ≠ .held ref' (.queued k) :=
    fun _ _ _ _ h => nomatch h
  cases hS with
  | @fresh _ d lock hd href hlock hactive hfree hco =>
      subst href hactive hco
      rcases hr.unasked hd hlock hfree with ⟨hstart, hask⟩
      refine ⟨hr.absent, scheduled_set hr.scheduled hd hask hstart fun a ha => (nomatch ha),
        hr.unqueued, hr.unowed, fun B j hB => hr.unserved B j (lined_set hd hask hB).2,
        Post.noConfusion, fun a ha => (nomatch ha), fun ref href => ?_, fun d₁ j hd₁ hj => ?_,
        fun ref j hj => ?_, fun d _ _ _ hph => absurd hph (hplace _ d.ref _ _), fun _ _ hph => nomatch hph⟩
      · cases href
        exact ⟨hr.scheduled.session d hd, hstart⟩
      · cases hd₁
        cases hj
        refine ⟨UInt64.le_refl _, fun _ => ?_⟩
        dsimp only
        rw [Function.update_self]
        exact Option.some_ne_none _
      · cases hj
        exact hask
  | @queued _ _ d hd href hq hT =>
      subst href
      have hheld := hr.ref d.ref rfl
      have ht := thins_relocks hr.scheduled hT hheld.2
      refine ⟨hr.absent, ht.scheduled hr.scheduled, ht.queue ▸ hr.unqueued, hr.unowed,
        fun B j hB => ht.queue ▸ hr.unserved B j (ht.lined hB), Post.noConfusion, fun a ha => ?_,
        fun ref href => ?_, fun d₁ j hd₁ hj => ?_, fun ref j hj => ?_,
        fun d _ _ _ hph => absurd hph (hplace _ d.ref _ _), fun _ _ hph => nomatch hph⟩
      · rcases hr.served d index a hd rfl (hq.trans (congrArg some ha)) with ⟨hrest, ha', ho, hl⟩
        exact ⟨hrest, ht.queue ▸ ha', ho, fun B j hB => ht.queue ▸ hl B j (ht.lined hB)⟩
      · exact ht.generation ▸ hr.ref ref href
      · rcases relocks_keeps hT hd₁ with ⟨d₂, hd₂, href₂, hactive₂, hqueries₂⟩
        rw [hactive₂, hqueries₂]
        exact hr.asked d₂ j hd₂ (href₂ ▸ hj)
      · exact hr.alone ref j hj
  | serving hT =>
      have hheld := hr.ref ref rfl
      have ht := thins_relocks hr.scheduled hT hheld.2
      refine ⟨hr.absent, ht.scheduled hr.scheduled, ht.queue ▸ hr.unqueued, hr.unowed,
        fun B j hB => ht.queue ▸ hr.unserved B j (ht.lined hB), Post.noConfusion, fun a ha => ?_,
        fun ref href => ?_, fun d₁ j hd₁ hj => ?_, fun ref j hj => ?_,
        fun d _ _ _ hph => absurd hph (hplace _ d.ref _ _), fun _ _ hph => nomatch hph⟩
      · rcases hr.owes a ha with ⟨hrest, ha', ho, hl⟩
        exact ⟨hrest, ht.queue ▸ ha', ho, fun B j hB => ht.queue ▸ hl B j (ht.lined hB)⟩
      · exact ht.generation ▸ hr.ref ref href
      · rcases relocks_keeps hT hd₁ with ⟨d₂, hd₂, href₂, hactive₂, hqueries₂⟩
        rw [hactive₂, hqueries₂]
        exact hr.asked d₂ j hd₂ (href₂ ▸ hj)
      · exact hr.alone ref j hj

/-- InspectState clears its query. -/
theorem Running.answers {d : QueryTable} {index : UInt64} {coroutine : Option HandlerId}
    (hr : Running φ T n i (.held ref (.serving index coroutine))) (hd : T.table = some d)
    (href : d.ref = ref) :
    Running φ { T with table := some { d with queries := Function.update d.queries index none } } n i
      (.held ref (.served coroutine)) := by
  subst href
  have ht : Thins φ T { T with
      table := some { d with queries := Function.update d.queries index none } } := by
    refine .kept hd rfl (UInt64.le_refl _) (fun j => ?_) (fun j hj hactive => ?_) (Or.inl rfl)
    · dsimp only
      by_cases hj : j = index
      · subst hj
        exact Or.inr (Function.update_self ..)
      · exact Or.inl (Function.update_of_ne hj ..)
    · have hne : j ≠ index := by
        rintro rfl
        exact hr.alone d.ref j rfl hj
      dsimp only
      rw [Function.update_of_ne hne]
      exact (hr.scheduled.asked d j hd hj).2 hactive
  have hplace : ∀ ref' k, Post.held d.ref (.served coroutine) ≠ .held ref' (.queued k) :=
    fun _ _ h => nomatch h
  exact ⟨hr.absent, ht.scheduled hr.scheduled, hr.unqueued, hr.unowed,
    fun B j hB => hr.unserved B j (ht.lined hB), Post.noConfusion,
    fun a ha => ⟨(hr.owes a ha).1, (hr.owes a ha).2.1, (hr.owes a ha).2.2.1,
      fun B j hB => (hr.owes a ha).2.2.2 B j (ht.lined hB)⟩,
    hr.ref, fun _ _ _ hj => (nomatch hj), fun _ _ hj => (nomatch hj),
    fun d' _ _ _ hph => absurd hph (hplace d'.ref _), fun _ _ hph => nomatch hph⟩

/-- InspectState puts the handler it let wait in the completion queue. -/
theorem Running.wakes (hr : Running φ T n i ph) : Running φ (T.wake ph.owes) n i .idle := by
  cases howes : ph.owes with
  | none => exact hr.rests (thins_refl hr.scheduled) Post.noConfusion rfl
  | some a =>
      rcases hr.owes a howes with ⟨hrest, hout, howed, hserved⟩
      have hs := scheduled_wake hr.scheduled hrest hout howed hserved
      rcases hrest with ⟨pa, hpa, hpr⟩
      have hmem : ∀ g, some g ∈ (T.wake (some a)).queue → g ≠ a → some g ∈ T.queue := by
        intro g hg hne
        rcases List.mem_append.1 hg with hg | hg
        · exact hg
        · exact absurd (Option.some.inj (List.mem_singleton.1 hg)) hne
      have hai : i ≠ a := by
        rintro rfl
        rw [hr.absent] at hpa
        cases hpa
      have hrun : Running φ (T.wake (some a)) n i .idle := by
        refine ⟨hr.absent, hs, fun h => hr.unqueued (hmem i h hai), hr.unowed, fun B j hB hq => ?_,
          Post.noConfusion, fun _ h => (nomatch h), fun _ h => (nomatch h), fun _ _ _ h => (nomatch h),
          fun _ _ h => (nomatch h), fun _ _ _ _ h => (nomatch h), fun _ _ h => nomatch h⟩
        have hBa : B ≠ a := by
          rintro rfl
          rcases hB with ⟨d, -, hB, -⟩
          rw [hpa] at hB
          cases hB
          cases hpr
        exact hr.unserved B j hB (hmem B hq hBa)
      exact hrun

/-! ### StartSession -/

/-- A session that is new is put in the context, or has been and is gone again. -/
theorem scheduled_install {table : Option QueryTable} (hs : Scheduled φ T n)
    (hnew : ∀ d, table = some d → d.ref = T.generation ∧ d.lock = true ∧ ∀ j, d.queries j = none) :
    Scheduled φ { T with
      table := table
      generation := T.generation + 1 } n := by
  have hheld : ¬ Holds φ T.generation := fun h => Nat.lt_irrefl _ (hs.refs _ h)
  have hline : ∀ B j co, ¬ Lined φ { T with
      table := table
      generation := T.generation + 1 } B j co := by
    rintro B j co ⟨d, hd, -, hj⟩
    rw [(hnew d hd).2.2 j] at hj
    cases hj
  refine ⟨hs.parked, hs.once, hs.owed, hs.debtor, fun d hd => ?_,
    fun ref href => Nat.lt_succ_of_lt (hs.refs ref href), fun d j hd hj => ?_, hs.alone,
    fun B j co hB => absurd hB (hline B j co), fun B j a hB => absurd hB (hline B j _),
    fun B B' j j' a hB => absurd hB (hline B j _), fun d j g ref k hd hj => ?_,
    fun d j g hd hj => ?_, fun D ref waiting hD => ?_⟩
  · rw [(hnew d hd).1]
    exact Nat.lt_succ_self _
  · rcases hj with ⟨D, pd, hD, hj⟩
    refine absurd ⟨D, pd, hD, ?_⟩ hheld
    rw [(hnew d hd).1] at hj
    cases pd with
    | held ref place => cases place <;> cases hj <;> rfl
    | _ => cases hj
  · rw [(hnew d hd).2.2 j] at hj
    cases hj
  · rw [(hnew d hd).2.2 j] at hj
    cases hj
  · exact ⟨fun d hd _ => (hnew d hd).2.1, (hs.started D ref waiting hD).2⟩

theorem Running.installs {active : UInt64} (hr : Running φ T n i .fresh) :
    Running φ { T with
      table := some ⟨T.generation, true, active, fun _ => none⟩
      generation := T.generation + 1 } n i (.starting T.generation true) := by
  have hheld : ¬ Holds φ T.generation := fun h => Nat.lt_irrefl _ (hr.scheduled.refs _ h)
  have hs : Scheduled φ { T with
      table := some ⟨T.generation, true, active, fun _ => none⟩
      generation := T.generation + 1 } n := scheduled_install hr.scheduled fun d hd => by
    cases hd
    exact ⟨rfl, rfl, fun _ => rfl⟩
  refine ⟨hr.absent, hs, hr.unqueued, hr.unowed, ?_, Post.noConfusion, fun _ h => (nomatch h),
    fun ref href => ?_, fun _ _ _ h => (nomatch h), fun _ _ h => (nomatch h),
    fun _ _ _ _ h => (nomatch h), fun ref waiting hph => ?_⟩
  · rintro B j ⟨d, hd, -, hj⟩
    cases hd
    cases hj
  · cases href
    refine ⟨Nat.lt_succ_self _, ?_⟩
    rintro ⟨D, waiting, hD⟩
    exact hheld ⟨D, _, hD, rfl⟩
  · cases hph
    refine ⟨fun d hd _ => ?_, hheld⟩
    cases hd
    rfl

theorem Running.aborts (hr : Running φ T n i .fresh) :
    Running φ { T with
      table := none
      generation := T.generation + 1 } n i .idle := by
  have hs : Scheduled φ { T with
      table := none
      generation := T.generation + 1 } n := scheduled_install hr.scheduled fun d hd => nomatch hd
  refine ⟨hr.absent, hs, hr.unqueued, hr.unowed, ?_, Post.noConfusion, fun _ h => (nomatch h),
    fun _ h => (nomatch h), fun _ _ _ h => (nomatch h), fun _ _ h => (nomatch h),
    fun _ _ _ _ h => (nomatch h), fun _ _ h => nomatch h⟩
  rintro B j ⟨d, hd, -, -⟩
  cases hd

theorem Running.opens {waiting : Bool} (hr : Running φ T n i (.starting ref waiting))
    (hT : Opens ref T T') : Running φ T' n i (.starting ref false) := by
  rcases hr.started ref waiting rfl with ⟨hlock, hheld⟩
  have hasks : ∀ j, ¬ AskedIn φ ref j := by
    rintro j ⟨D, pd, hD, hj⟩
    refine hheld ⟨D, pd, hD, ?_⟩
    cases pd with
    | held ref place => cases place <;> cases hj <;> rfl
    | _ => cases hj
  have ht : Thins φ T T' := by
    rcases hT with rfl | ⟨d, index, hd, rfl, rfl⟩
    · exact thins_refl hr.scheduled
    · refine .kept hd rfl (UInt64.le_refl _) (fun j => ?_) (fun j hj => absurd hj (hasks j))
        (Or.inl rfl)
      dsimp only
      by_cases hj : j = index
      · subst hj
        exact Or.inr (Function.update_self ..)
      · exact Or.inl (Function.update_of_ne hj ..)
  have hlocked : ∀ d', T'.table = some d' → d'.ref = ref → d'.lock = true := by
    intro d' hd' href
    rcases hT with rfl | ⟨d, index, hd, rfl, rfl⟩
    · exact hlock d' hd' href
    · cases hd'
      exact hlock d hd rfl
  refine ⟨hr.absent, ht.scheduled hr.scheduled, ht.queue ▸ hr.unqueued, hr.unowed,
    fun B j hB => ht.queue ▸ hr.unserved B j (ht.lined hB), Post.noConfusion, fun _ h => (nomatch h),
    fun ref' href' => ht.generation ▸ hr.ref ref' href', fun _ _ _ h => (nomatch h),
    fun _ _ h => (nomatch h), fun _ _ _ _ h => (nomatch h), fun ref' waiting' hph => ?_⟩
  cases hph
  exact ⟨hlocked, hheld⟩

end Turns

/-! ### Every segment -/

/-- Every segment keeps the schedule. -/
theorem scheduled_step [Keccak] {φ : HandlerId → Option Post} {n n' i : HandlerId} {rpc : Rpc}
    {ph : Post} {s s' : HandlerContext} {t : Option Post}
    (hr : Running φ (Callbacks.of s) n i ph) (hstep : PostStep i rpc ph s t s') (hn : n ≤ n')
    (hin : i < n')
    (hfound : Found φ i rpc ph s)
    (hwrap : ∀ ref request d, rpc = .finishEpoch request → ph = .held ref .storing →
      (Callbacks.of s).table = some d → d.active ≠ 0xFFFFFFFFFFFFFFFF) :
    Scheduled (Function.update φ i t) (Callbacks.of s') n' := by
  have hrest : ∀ {t : Option Post}, (t = none ∨ t = some .idle) → ∀ {T'}, Thins φ (Callbacks.of s) T' →
      Scheduled (Function.update φ i t) T' n' := by
    rintro t (rfl | rfl) T' ht
    · have hidle : Running φ T' n' i .idle := (hr.mono hn).rests ht Post.noConfusion rfl
      exact hidle.over
    · exact ((hr.mono hn).rests ht Post.noConfusion rfl).park fun _ _ => Post.noConfusion
  have hr' := hr.mono hn
  have hrefl := thins_refl hr.scheduled
  cases hstep with
  | rest ht hT => exact hT ▸ hrest ht hrefl
  | idle hT => exact hT ▸ hrest (Or.inl rfl) hrefl
  | left hT => exact hT ▸ hrest (Or.inl rfl) hrefl
  | @work _ ref place _ _ _ hin' hT hplace =>
      have hheld := hin'.reference hr
      have ht := hT.thins hr.scheduled hheld.2 (hwrap ref)
      have hrun : Running φ (Callbacks.of s') n' i (.held ref place) := by
        rcases hplace with rfl | rfl
        · exact hr'.turns ht Post.noConfusion rfl rfl (fun _ _ => Post.noConfusion)
            fun ref' href' => by cases href'; exact hheld
        · exact hr'.turns ht Post.noConfusion rfl rfl (fun _ _ => Post.noConfusion)
            fun ref' href' => by cases href'; exact hheld
      refine hrun.park ?_
      rintro ref' k hph
      cases hph
      rcases hplace with h | h <;> cases h
  | advance hin' hT hk =>
      have hheld := hin'.reference hr
      exact (hr'.turns (thins_relocks hr.scheduled hT hheld.2) Post.noConfusion rfl rfl
        (fun _ _ => Post.noConfusion) fun ref' href' => by cases href'; exact hheld).park
        fun _ _ h => nomatch h
  | @leave _ ref _ _ _ _ hin' hT ht hend =>
      exact hrest ht (hT.thins hr.scheduled (hin'.reference hr).2 (hwrap ref))
  | @handOver request ref _ ph' _ _ d index coroutine lock hin' hworks hd href hindex hq hph' hT =>
      subst href
      rw [hT]
      refine hr'.handsOver hin hd hq (hin'.reference hr) hph' fun g hg => ?_
      subst hg
      exact hfound request d index g rfl hd hin' hworks hindex hq
  | line hd href hlock hactive hfree hT =>
      subst href hactive
      rw [hT]
      exact hr'.lines hin hd hlock hfree
  | serve hS =>
      exact (hS.running hr').park fun _ _ h => nomatch h
  | answer hS hd href hT =>
      rw [hT]
      exact ((hS.running hr').answers hd href).park fun _ _ h => nomatch h
  | fail hS hT =>
      have hrun := hS.running hr'
      have hwoken := hrun.wakes
      exact (hwoken.rests (thins_relocks hwoken.scheduled hT (hrun.ref _ rfl).2) Post.noConfusion
        rfl).park fun _ _ => Post.noConfusion
  | answered hT =>
      have hwoken := hr'.wakes
      have hidle : Running φ (Callbacks.of s') n' i .idle :=
        hwoken.rests (thins_relocks hwoken.scheduled hT (hr.ref _ rfl).2) Post.noConfusion rfl
      exact hidle.over
  | install href hnone hT =>
      subst href
      rw [hT]
      exact hr'.installs.park fun _ _ => Post.noConfusion
  | abort hnone hT =>
      have hT' : Callbacks.of s' = { Callbacks.of s with
          table := none
          generation := (Callbacks.of s).generation + 1 } := by
        rw [hT, ← hnone]
        rfl
      rw [hT']
      exact hr'.aborts.park fun _ _ => Post.noConfusion
  | check hT => exact (hr'.opens hT).park fun _ _ => Post.noConfusion
  | close hT =>
      rw [hT]
      exact hrest (Or.inr rfl) .gone
  | started hT => exact hrest (Or.inl rfl) (thins_relocks hr.scheduled hT (hr.ref _ rfl).2)
  | checkIn hT =>
      rw [hT]
      exact (hr'.rests hrefl Post.noConfusion rfl).park fun _ _ => Post.noConfusion
  | resume hend hs hT =>
      rw [hT]
      exact (hr'.rests hrefl Post.noConfusion rfl).park fun _ _ => Post.noConfusion
  | resumed => exact hrest (Or.inl rfl) hrefl

end ServerManager
