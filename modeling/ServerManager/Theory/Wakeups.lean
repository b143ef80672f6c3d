import Mathlib
import ServerManager.Theory.Conduct
import ServerManager.Theory.HandOver

/-!
# Every Handler Is Woken Up Once

A handler that waits to be put in the completion queue is put there by the one
that knows its name: from the query of an epoch, or, for AdvanceState, by the
InspectState it let in. `Scheduled` says that no name is there twice in a way that
matters, and that every name in the queue is that of a handler that waits.

A query can keep the name of a handler that is long gone. Whoever takes the place
of the coroutine in a query must therefore have found one there that waits, and
that is a hypothesis of `scheduled_handOver`.

The invariant is taken apart at the handler that runs and put together again at
the place where it is parked next. `Fits` is what one handler adds to it.

## Main definitions

* `Resting`, `Owed`, `Holds`, `Lined`: Who waits for whom.
* `Scheduled`: The invariant.
* `Fits`: What a handler that is parked adds to the invariant.
* `Running`: The invariant without the handler that runs.
* `Thins`: Queries are taken away.

## Theorems

* `scheduled_park`: A handler that fits can be parked.
* `running_fresh`, `running_completed`, `running_dequeued`: A handler that runs is
  taken out.
* `Thins.scheduled`, `scheduled_set`, `scheduled_wake`, `scheduled_handOver`: What a
  segment does to the queries and to the queue.
-/

namespace ServerManager

open Coroutine

/-! ### Who waits for whom -/

section Names

variable (φ : HandlerId → Option Post) (T : Callbacks)

/-- AdvanceState waits to be put in the completion queue. -/
def Resting (a : HandlerId) : Prop := ∃ ph, φ a = some ph ∧ ph.resting = true

/-- An InspectState will put it there. -/
def Owed (a : HandlerId) : Prop := ∃ D ph, φ D = some ph ∧ ph.owes = some a

/-- A handler has a reference to this session. -/
def Holds (ref : Nat) : Prop := ∃ D ph, φ D = some ph ∧ ph.ref = some ref

/-- A handler is starting this session. -/
def Starting (ref : Nat) : Prop := ∃ D waiting, φ D = some (.starting ref waiting)

/-- An InspectState has its query in this epoch. -/
def AskedIn (ref : Nat) (i : UInt64) : Prop := ∃ D ph, φ D = some ph ∧ ph.asks = some (ref, i)

/-- InspectState waits until the inputs of the session let it in, and `coroutine`
    is in its query. -/
def Lined (B : HandlerId) (i : UInt64) (coroutine : Option HandlerId) : Prop :=
  ∃ d, T.table = some d ∧ φ B = some (.held d.ref (.queued i)) ∧ d.queries i = some coroutine

/-- Handlers have taken their places, and nobody is going to be woken up twice. The
    handlers named in queries are below `n`. -/
structure Scheduled (n : HandlerId) : Prop where
  /-- Whoever is in the completion queue waits for that. -/
  parked : ∀ g, some g ∈ T.queue → ∃ ph, φ g = some ph ∧ ph.parked = true
  once : ∀ g, T.queue.count (some g) ≤ 1
  owed : ∀ a, Owed φ a → Resting φ a ∧ some a ∉ T.queue
  debtor : ∀ D D' ph ph' a, φ D = some ph → φ D' = some ph' → ph.owes = some a →
    ph'.owes = some a → D = D'
  session : ∀ d, T.table = some d → d.ref < T.generation
  refs : ∀ ref, Holds φ ref → ref < T.generation
  /-- A query that is asked for in the active epoch is there. -/
  asked : ∀ d i, T.table = some d → AskedIn φ d.ref i →
    i ≤ d.active ∧ (i = d.active → d.queries i ≠ none)
  alone : ∀ D D' ph ph' q, φ D = some ph → φ D' = some ph' → ph.asks = some q →
    ph'.asks = some q → D = D'
  /-- The coroutine in the query of InspectState is its own until the inputs let
      it in, and then it is one that waits for it. -/
  waits : ∀ B i coroutine, Lined φ T B i coroutine → some B ∉ T.queue → coroutine = some B
  serves : ∀ B i a, Lined φ T B i (some a) → some B ∈ T.queue →
    Resting φ a ∧ some a ∉ T.queue ∧ ¬ Owed φ a
  apart : ∀ B B' i i' a, Lined φ T B i (some a) → Lined φ T B' i' (some a) → some B ∈ T.queue →
    some B' ∈ T.queue → B = B'
  points : ∀ d i g ref i', T.table = some d → d.queries i = some (some g) →
    φ g = some (.held ref (.queued i')) → ref = d.ref ∧ i' = i ∧ some g ∉ T.queue
  named : ∀ d i g, T.table = some d → d.queries i = some (some g) → g < n
  /-- Nobody has a reference to a session that is being started. -/
  started : ∀ D ref waiting, φ D = some (.starting ref waiting) →
    (∀ d, T.table = some d → d.ref = ref → d.lock = true) ∧
      ∀ D' ph, φ D' = some ph → ph.ref = some ref → D' = D

/-- What handler `i` adds to the invariant when it is parked in phase `ph`. -/
structure Fits (n : HandlerId) (i : HandlerId) (ph : Post) : Prop where
  queued : some i ∈ T.queue → ph.parked = true
  owed : Owed φ i → ph.resting = true ∧ some i ∉ T.queue
  owes : ∀ a, ph.owes = some a → Resting φ a ∧ some a ∉ T.queue ∧ ¬ Owed φ a ∧
    ∀ B j, Lined φ T B j (some a) → some B ∉ T.queue
  ref : ∀ ref, ph.ref = some ref → ref < T.generation ∧ ¬ Starting φ ref
  asked : ∀ d j, T.table = some d → ph.asks = some (d.ref, j) →
    j ≤ d.active ∧ (j = d.active → d.queries j ≠ none)
  alone : ∀ ref j, ph.asks = some (ref, j) → ¬ AskedIn φ ref j
  waits : ∀ d j coroutine, T.table = some d → ph = .held d.ref (.queued j) →
    d.queries j = some coroutine → some i ∉ T.queue → coroutine = some i
  serves : ∀ d j a, T.table = some d → ph = .held d.ref (.queued j) →
    d.queries j = some (some a) → some i ∈ T.queue →
      Resting φ a ∧ some a ∉ T.queue ∧ ¬ Owed φ a ∧ ∀ B k, Lined φ T B k (some a) → some B ∉ T.queue
  served : ∀ B j, Lined φ T B j (some i) → some B ∈ T.queue → ph.resting = true ∧ some i ∉ T.queue
  points : ∀ d j ref k, T.table = some d → d.queries j = some (some i) →
    ph = .held ref (.queued k) → ref = d.ref ∧ k = j ∧ some i ∉ T.queue
  started : ∀ ref waiting, ph = .starting ref waiting →
    (∀ d, T.table = some d → d.ref = ref → d.lock = true) ∧ ¬ Holds φ ref

end Names

namespace Post

theorem resting_parked {ph : Post} (h : ph.resting = true) : ph.parked = true := by
  cases ph with
  | leaving => rfl
  | held ref place =>
      cases place with
      | handedOff => rfl
      | _ => cases h
  | _ => cases h

end Post

/-! ### One handler more -/

section Park

variable {φ : HandlerId → Option Post} {T : Callbacks} {n i : HandlerId} {ph : Post}

theorem resting_park {a : HandlerId} (hφ : φ i = none) (ha : Resting φ a) :
    Resting (Function.update φ i (some ph)) a := by
  rcases ha with ⟨pa, hpa, hrest⟩
  have hne : a ≠ i := by
    rintro rfl
    rw [hφ] at hpa
    cases hpa
  exact ⟨pa, by rw [Function.update_of_ne hne]; exact hpa, hrest⟩

/-- Who is parked with one handler more. -/
theorem park_iff {D : HandlerId} {pd : Post} (hφ : φ i = none) :
    Function.update φ i (some ph) D = some pd ↔ (D = i ∧ pd = ph) ∨ φ D = some pd := by
  by_cases hD : D = i
  · subst hD
    rw [Function.update_self, hφ]
    simp [eq_comm]
  · rw [Function.update_of_ne hD]
    simp [hD]

theorem owed_park {a : HandlerId} (hφ : φ i = none) :
    Owed (Function.update φ i (some ph)) a ↔ ph.owes = some a ∨ Owed φ a := by
  unfold Owed
  simp only [park_iff hφ]
  constructor
  · rintro ⟨D, pd, ⟨rfl, rfl⟩ | hD, howes⟩
    · exact Or.inl howes
    · exact Or.inr ⟨D, pd, hD, howes⟩
  · rintro (howes | ⟨D, pd, hD, howes⟩)
    · exact ⟨i, ph, Or.inl ⟨rfl, rfl⟩, howes⟩
    · exact ⟨D, pd, Or.inr hD, howes⟩

theorem holds_park {ref : Nat} (hφ : φ i = none) :
    Holds (Function.update φ i (some ph)) ref ↔ ph.ref = some ref ∨ Holds φ ref := by
  unfold Holds
  simp only [park_iff hφ]
  constructor
  · rintro ⟨D, pd, ⟨rfl, rfl⟩ | hD, href⟩
    · exact Or.inl href
    · exact Or.inr ⟨D, pd, hD, href⟩
  · rintro (href | ⟨D, pd, hD, href⟩)
    · exact ⟨i, ph, Or.inl ⟨rfl, rfl⟩, href⟩
    · exact ⟨D, pd, Or.inr hD, href⟩

theorem askedIn_park {ref : Nat} {j : UInt64} (hφ : φ i = none) :
    AskedIn (Function.update φ i (some ph)) ref j ↔ ph.asks = some (ref, j) ∨ AskedIn φ ref j := by
  unfold AskedIn
  simp only [park_iff hφ]
  constructor
  · rintro ⟨D, pd, ⟨rfl, rfl⟩ | hD, hasks⟩
    · exact Or.inl hasks
    · exact Or.inr ⟨D, pd, hD, hasks⟩
  · rintro (hasks | ⟨D, pd, hD, hasks⟩)
    · exact ⟨i, ph, Or.inl ⟨rfl, rfl⟩, hasks⟩
    · exact ⟨D, pd, Or.inr hD, hasks⟩

theorem lined_park {B : HandlerId} {j : UInt64} {coroutine : Option HandlerId} (hφ : φ i = none) :
    Lined (Function.update φ i (some ph)) T B j coroutine ↔
      (B = i ∧ ∃ d, T.table = some d ∧ ph = .held d.ref (.queued j) ∧ d.queries j = some coroutine) ∨
        Lined φ T B j coroutine := by
  unfold Lined
  simp only [park_iff hφ]
  constructor
  · rintro ⟨d, hd, ⟨rfl, hph⟩ | hB, hq⟩
    · exact Or.inl ⟨rfl, d, hd, hph.symm, hq⟩
    · exact Or.inr ⟨d, hd, hB, hq⟩
  · rintro (⟨rfl, d, hd, hph, hq⟩ | ⟨d, hd, hB, hq⟩)
    · exact ⟨d, hd, Or.inl ⟨rfl, hph.symm⟩, hq⟩
    · exact ⟨d, hd, Or.inr hB, hq⟩

/-- A handler that fits can be parked. -/
theorem scheduled_park (hφ : φ i = none) (hs : Scheduled φ T n) (hf : Fits φ T n i ph) :
    Scheduled (Function.update φ i (some ph)) T n where
  parked g hg := by
    by_cases hgi : g = i
    · subst hgi
      exact ⟨ph, Function.update_self .., hf.queued hg⟩
    · rw [Function.update_of_ne hgi]
      exact hs.parked g hg
  once := hs.once
  owed a hall := by
    rcases (owed_park hφ).1 hall with howes | ha
    · rcases hf.owes a howes with ⟨hrest, hq, -⟩
      exact ⟨resting_park hφ hrest, hq⟩
    · by_cases hai : a = i
      · subst hai
        rcases hf.owed ha with ⟨hrest, hq⟩
        exact ⟨⟨ph, Function.update_self .., hrest⟩, hq⟩
      · rcases hs.owed a ha with ⟨hrest, hq⟩
        exact ⟨resting_park hφ hrest, hq⟩
  debtor D D' pd pd' a hall hall' ha ha' := by
    rcases (park_iff hφ).1 hall with ⟨rfl, rfl⟩ | hD
    · rcases (park_iff hφ).1 hall' with ⟨rfl, rfl⟩ | hD'
      · rfl
      · exact absurd ⟨D', pd', hD', ha'⟩ (hf.owes a ha).2.2.1
    · rcases (park_iff hφ).1 hall' with ⟨rfl, rfl⟩ | hD'
      · exact absurd ⟨D, pd, hD, ha⟩ (hf.owes a ha').2.2.1
      · exact hs.debtor D D' pd pd' a hD hD' ha ha'
  session := hs.session
  refs ref href := by
    rcases (holds_park hφ).1 href with href | href
    · exact (hf.ref ref href).1
    · exact hs.refs ref href
  asked d j hd hj := by
    rcases (askedIn_park hφ).1 hj with hasks | hj
    · exact hf.asked d j hd hasks
    · exact hs.asked d j hd hj
  alone D D' pd pd' q hall hall' hq hq' := by
    rcases (park_iff hφ).1 hall with ⟨rfl, rfl⟩ | hD
    · rcases (park_iff hφ).1 hall' with ⟨rfl, rfl⟩ | hD'
      · rfl
      · exact absurd ⟨D', pd', hD', hq'⟩ (hf.alone q.1 q.2 hq)
    · rcases (park_iff hφ).1 hall' with ⟨rfl, rfl⟩ | hD'
      · exact absurd ⟨D, pd, hD, hq⟩ (hf.alone q.1 q.2 hq')
      · exact hs.alone D D' pd pd' q hD hD' hq hq'
  waits B j coroutine hB hq := by
    rcases (lined_park hφ).1 hB with ⟨rfl, d, hd, hph, hj⟩ | hB
    · exact hf.waits d j coroutine hd hph hj hq
    · exact hs.waits B j coroutine hB hq
  serves B j a hall hq := by
    have hserved : Resting φ a ∧ some a ∉ T.queue ∧ ¬ Owed φ a → ¬ ph.owes = some a →
        Resting (Function.update φ i (some ph)) a ∧ some a ∉ T.queue ∧
          ¬ Owed (Function.update φ i (some ph)) a := by
      rintro ⟨hrest, ha, howed⟩ howes
      refine ⟨resting_park hφ hrest, ha, fun h => ?_⟩
      rcases (owed_park hφ).1 h with h | h
      · exact howes h
      · exact howed h
    rcases (lined_park hφ).1 hall with ⟨rfl, d, hd, hph, hj⟩ | hB
    · rcases hf.serves d j a hd hph hj hq with ⟨hrest, ha, howed, -⟩
      refine hserved ⟨hrest, ha, howed⟩ fun howes => ?_
      subst hph
      cases howes
    · by_cases hai : a = i
      · subst hai
        rcases hf.served B j hB hq with ⟨hrest, ha⟩
        refine ⟨⟨ph, Function.update_self .., hrest⟩, ha, fun h => ?_⟩
        rcases (owed_park hφ).1 h with h | h
        · exact (hf.owes a h).2.2.2 B j hB hq
        · exact (hs.serves B j a hB hq).2.2 h
      · exact hserved (hs.serves B j a hB hq) fun howes => (hf.owes a howes).2.2.2 B j hB hq
  apart B B' j j' a hall hall' hq hq' := by
    rcases (lined_park hφ).1 hall with ⟨rfl, d, hd, hph, hj⟩ | hB
    · rcases (lined_park hφ).1 hall' with ⟨rfl, -⟩ | hB'
      · rfl
      · exact absurd hq' ((hf.serves d j a hd hph hj hq).2.2.2 B' j' hB')
    · rcases (lined_park hφ).1 hall' with ⟨rfl, d, hd, hph, hj⟩ | hB'
      · exact absurd hq ((hf.serves d j' a hd hph hj hq').2.2.2 B j hB)
      · exact hs.apart B B' j j' a hB hB' hq hq'
  points d j g ref k hd hj hg := by
    rcases (park_iff hφ).1 hg with ⟨rfl, hph⟩ | hg
    · exact hf.points d j ref k hd hj hph.symm
    · exact hs.points d j g ref k hd hj hg
  named := hs.named
  started D ref waiting hall := by
    rcases (park_iff hφ).1 hall with ⟨rfl, hph⟩ | hD
    · rcases hf.started ref waiting hph.symm with ⟨hlock, hnone⟩
      refine ⟨hlock, fun D' pd hall' href => ?_⟩
      rcases (park_iff hφ).1 hall' with ⟨rfl, -⟩ | hD'
      · rfl
      · exact absurd ⟨D', pd, hD', href⟩ hnone
    · rcases hs.started D ref waiting hD with ⟨hlock, halone⟩
      refine ⟨hlock, fun D' pd hall' href => ?_⟩
      rcases (park_iff hφ).1 hall' with ⟨rfl, rfl⟩ | hD'
      · exact absurd ⟨D, waiting, hD⟩ (hf.ref ref href).2
      · exact halone D' pd hD' href

end Park

/-! ### The handler that runs -/

section Names

variable (φ : HandlerId → Option Post) (T : Callbacks)

/-- Handler `i` runs, in a segment that begins in phase `ph`. The names of the
    others are as they should be, and nobody else is going to wake it up. -/
structure Running (n i : HandlerId) (ph : Post) : Prop where
  absent : φ i = none
  scheduled : Scheduled φ T n
  unqueued : some i ∉ T.queue
  unowed : ¬ Owed φ i
  unserved : ∀ B j, Lined φ T B j (some i) → some B ∉ T.queue
  fresh : ph = .fresh → ∀ d j, T.table = some d → d.queries j ≠ some (some i)
  owes : ∀ a, ph.owes = some a → Resting φ a ∧ some a ∉ T.queue ∧ ¬ Owed φ a ∧
    ∀ B j, Lined φ T B j (some a) → some B ∉ T.queue
  ref : ∀ ref, ph.ref = some ref → ref < T.generation ∧ ¬ Starting φ ref
  asked : ∀ d j, T.table = some d → ph.asks = some (d.ref, j) →
    j ≤ d.active ∧ (j = d.active → d.queries j ≠ none)
  alone : ∀ ref j, ph.asks = some (ref, j) → ¬ AskedIn φ ref j
  served : ∀ d j a, T.table = some d → ph = .held d.ref (.queued j) →
    d.queries j = some (some a) → Resting φ a ∧ some a ∉ T.queue ∧ ¬ Owed φ a ∧
      ∀ B k, Lined φ T B k (some a) → some B ∉ T.queue
  started : ∀ ref waiting, ph = .starting ref waiting →
    (∀ d, T.table = some d → d.ref = ref → d.lock = true) ∧ ¬ Holds φ ref

end Names

section Out

variable {φ : HandlerId → Option Post} {T : Callbacks} {n i : HandlerId} {ph : Post}

/-- Who is parked with one handler less. -/
theorem out_iff {D : HandlerId} {pd : Post} :
    Function.update φ i none D = some pd ↔ D ≠ i ∧ φ D = some pd := by
  by_cases hD : D = i
  · subst hD
    rw [Function.update_self]
    simp
  · rw [Function.update_of_ne hD]
    simp [hD]

theorem Owed.out {a : HandlerId} (h : Owed (Function.update φ i none) a) : Owed φ a := by
  rcases h with ⟨D, pd, hD, ha⟩
  exact ⟨D, pd, (out_iff.1 hD).2, ha⟩

theorem Resting.out {a : HandlerId} (h : Resting φ a) (hne : a ≠ i) :
    Resting (Function.update φ i none) a := by
  rcases h with ⟨pa, hpa, hrest⟩
  exact ⟨pa, out_iff.2 ⟨hne, hpa⟩, hrest⟩

theorem AskedIn.out {ref : Nat} {j : UInt64} (h : AskedIn (Function.update φ i none) ref j) :
    AskedIn φ ref j := by
  rcases h with ⟨D, pd, hD, hj⟩
  exact ⟨D, pd, (out_iff.1 hD).2, hj⟩

theorem Lined.out {queue : List (Option HandlerId)} {B : HandlerId} {j : UInt64}
    {coroutine : Option HandlerId}
    (h : Lined (Function.update φ i none) { T with queue := queue } B j coroutine) :
    B ≠ i ∧ Lined φ T B j coroutine := by
  rcases h with ⟨d, hd, hB, hj⟩
  exact ⟨(out_iff.1 hB).1, d, hd, (out_iff.1 hB).2, hj⟩

/-- A handler that nobody is going to wake up is taken out, with its entry of the
    completion queue if it has one. -/
theorem scheduled_out {queue : List (Option HandlerId)} (hs : Scheduled φ T n)
    (hqueue : ∀ g, g ≠ i → (some g ∈ queue ↔ some g ∈ T.queue))
    (hcount : ∀ g, queue.count (some g) ≤ T.queue.count (some g)) (hi : some i ∉ queue)
    (howed : ¬ Owed φ i) (hserved : ∀ B j, Lined φ T B j (some i) → some B ∉ T.queue) :
    Scheduled (Function.update φ i none) { T with queue := queue } n where
  parked g hg := by
    have hgi : g ≠ i := by
      rintro rfl
      exact hi hg
    rcases hs.parked g ((hqueue g hgi).1 hg) with ⟨pg, hpg, hparked⟩
    exact ⟨pg, out_iff.2 ⟨hgi, hpg⟩, hparked⟩
  once g := Nat.le_trans (hcount g) (hs.once g)
  owed a ha := by
    rcases hs.owed a ha.out with ⟨hrest, hq⟩
    have hai : a ≠ i := by
      rintro rfl
      exact howed ha.out
    exact ⟨hrest.out hai, fun h => hq ((hqueue a hai).1 h)⟩
  debtor D D' pd pd' a hD hD' := hs.debtor D D' pd pd' a (out_iff.1 hD).2 (out_iff.1 hD').2
  session := hs.session
  refs ref href := by
    rcases href with ⟨D, pd, hD, href⟩
    exact hs.refs ref ⟨D, pd, (out_iff.1 hD).2, href⟩
  asked d j hd hj := hs.asked d j hd hj.out
  alone D D' pd pd' q hD hD' := hs.alone D D' pd pd' q (out_iff.1 hD).2 (out_iff.1 hD').2
  waits B j coroutine hB hq := by
    rcases hB.out with ⟨hBi, hB⟩
    exact hs.waits B j coroutine hB fun h => hq ((hqueue B hBi).2 h)
  serves B j a hB hq := by
    rcases hB.out with ⟨hBi, hlined⟩
    have hBq := (hqueue B hBi).1 hq
    have hai : a ≠ i := fun h => hserved B j (h ▸ hlined) hBq
    rcases hs.serves B j a hlined hBq with ⟨hrest, ha, hnowed⟩
    exact ⟨hrest.out hai, fun h => ha ((hqueue a hai).1 h), fun h => hnowed h.out⟩
  apart B B' j j' a hB hB' hq hq' := by
    rcases hB.out with ⟨hBi, hB⟩
    rcases hB'.out with ⟨hBi', hB'⟩
    exact hs.apart B B' j j' a hB hB' ((hqueue B hBi).1 hq) ((hqueue B' hBi').1 hq')
  points d j g ref k hd hj hg := by
    rcases out_iff.1 hg with ⟨hgi, hg⟩
    rcases hs.points d j g ref k hd hj hg with ⟨href, hk, hq⟩
    exact ⟨href, hk, fun h => hq ((hqueue g hgi).1 h)⟩
  named := hs.named
  started D ref waiting hD := by
    rcases hs.started D ref waiting (out_iff.1 hD).2 with ⟨hlock, halone⟩
    exact ⟨hlock, fun D' pd hD' href => halone D' pd (out_iff.1 hD').2 href⟩

/-- A handler that runs for the first time. -/
theorem running_fresh (hs : Scheduled φ T n) (hφ : φ i = none) (hn : n ≤ i) :
    Running φ T n i .fresh where
  absent := hφ
  scheduled := hs
  unqueued hq := by
    rcases hs.parked i hq with ⟨pi, hpi, -⟩
    rw [hφ] at hpi
    cases hpi
  unowed ho := by
    rcases (hs.owed i ho).1 with ⟨pi, hpi, -⟩
    rw [hφ] at hpi
    cases hpi
  unserved B j hB hq := by
    rcases (hs.serves B j i hB hq).1 with ⟨pi, hpi, -⟩
    rw [hφ] at hpi
    cases hpi
  fresh _ d j hd hj := absurd (hs.named d j i hd hj) (Nat.not_lt.2 hn)
  owes _ h := nomatch h
  ref _ h := nomatch h
  asked _ _ _ h := nomatch h
  alone _ _ h := nomatch h
  served _ _ _ _ h := nomatch h
  started _ _ h := nomatch h

/-- What a handler takes with it when it runs. -/
theorem scheduled_taken {queue : List (Option HandlerId)} (hs : Scheduled φ T n)
    (hφ : φ i = some ph) (hfresh : ph ≠ .fresh)
    (hqueue : ∀ g, g ≠ i → (some g ∈ queue ↔ some g ∈ T.queue))
    (hcount : ∀ g, queue.count (some g) ≤ T.queue.count (some g)) (hi : some i ∉ queue)
    (howed : ¬ Owed φ i) (hserved : ∀ B j, Lined φ T B j (some i) → some B ∉ T.queue)
    (hline : ∀ ref j, ph = .held ref (.queued j) → some i ∈ T.queue) :
    Running (Function.update φ i none) { T with queue := queue } n i ph := by
  -- nobody else shares what is the handler's own
  have hother : ∀ B j a, Lined (Function.update φ i none) { T with queue := queue } B j (some a) →
      some B ∈ queue → Lined φ T B j (some a) ∧ B ≠ i ∧ some B ∈ T.queue := by
    intro B j a hB hq
    rcases hB.out with ⟨hBi, hB⟩
    exact ⟨hB, hBi, (hqueue B hBi).1 hq⟩
  refine ⟨Function.update_self .., scheduled_out hs hqueue hcount hi howed hserved, hi,
    fun h => howed h.out, fun B j hB hq => ?_, fun h => absurd h hfresh, fun a ha => ?_,
    fun ref href => ?_, fun d j hd hj => ?_, fun ref j hj hask => ?_, fun d j a hd hph hj => ?_,
    fun ref waiting hph => ?_⟩
  · rcases hother B j i hB hq with ⟨hB, -, hq⟩
    exact hserved B j hB hq
  · have ho : Owed φ a := ⟨i, ph, hφ, ha⟩
    rcases hs.owed a ho with ⟨hrest, hq⟩
    have hai : a ≠ i := by
      rintro rfl
      exact howed ho
    refine ⟨hrest.out hai, fun h => hq ((hqueue a hai).1 h), ?_, fun B j hB hBq => ?_⟩
    · rintro ⟨D, pd, hD, hda⟩
      rcases out_iff.1 hD with ⟨hDi, hD⟩
      exact hDi (hs.debtor D i pd ph a hD hφ hda ha)
    · rcases hother B j a hB hBq with ⟨hB, -, hBq⟩
      exact (hs.serves B j a hB hBq).2.2 ho
  · refine ⟨hs.refs ref ⟨i, ph, hφ, href⟩, ?_⟩
    rintro ⟨D, waiting, hD⟩
    rcases out_iff.1 hD with ⟨hDi, hD⟩
    exact hDi ((hs.started D ref waiting hD).2 i ph hφ href).symm
  · exact hs.asked d j hd ⟨i, ph, hφ, hj⟩
  · rcases hask with ⟨D, pd, hD, hdj⟩
    rcases out_iff.1 hD with ⟨hDi, hD⟩
    exact hDi (hs.alone D i pd ph (ref, j) hD hφ hdj hj)
  · subst hph
    have hBi : Lined φ T i j (some a) := ⟨d, hd, hφ, hj⟩
    have hiq := hline d.ref j rfl
    rcases hs.serves i j a hBi hiq with ⟨hrest, hq, hnowed⟩
    have hai : a ≠ i := by
      rintro rfl
      exact hserved a j hBi hiq
    refine ⟨hrest.out hai, fun h => hq ((hqueue a hai).1 h), fun h => hnowed h.out,
      fun B k hB hBq => ?_⟩
    rcases hother B k a hB hBq with ⟨hB, hne, hBq⟩
    exact hne (hs.apart B i k j a hB hBi hBq hiq)
  · subst hph
    rcases hs.started i ref waiting hφ with ⟨hlock, halone⟩
    refine ⟨hlock, ?_⟩
    rintro ⟨D, pd, hD, href⟩
    rcases out_iff.1 hD with ⟨hDi, hD⟩
    exact hDi (halone D pd hD href)

/-- A handler goes on that does not wait to be woken up. -/
theorem running_completed (hs : Scheduled φ T n) (hφ : φ i = some ph) (hfresh : ph ≠ .fresh)
    (hparked : ph.parked = false) : Running (Function.update φ i none) T n i ph := by
  have hresting : ¬ Resting φ i := by
    rintro ⟨pi, hpi, hrest⟩
    rw [hφ] at hpi
    cases hpi
    rw [Post.resting_parked hrest] at hparked
    cases hparked
  refine scheduled_taken hs hφ hfresh (fun g _ => Iff.rfl) (fun g => Nat.le_refl _) (fun hq => ?_)
    (fun ho => hresting (hs.owed i ho).1) (fun B j hB hq => hresting (hs.serves B j i hB hq).1) ?_
  · rcases hs.parked i hq with ⟨pi, hpi, hp⟩
    rw [hφ] at hpi
    cases hpi
    rw [hp] at hparked
    cases hparked
  · rintro ref j rfl
    cases hparked

/-- A handler goes on that was in the completion queue. -/
theorem running_dequeued {j : Nat} (hs : Scheduled φ T n) (hφ : φ i = some ph)
    (hfresh : ph ≠ .fresh) (hj : T.queue[j]? = some (some i)) :
    Running (Function.update φ i none) { T with queue := T.queue.eraseIdx j } n i ph := by
  have hmem : some i ∈ T.queue := List.mem_of_getElem? hj
  have hle : ∀ g, (T.queue.eraseIdx j).count (some g) ≤ T.queue.count (some g) := fun g =>
    (List.eraseIdx_sublist ..).count_le _
  refine scheduled_taken hs hφ hfresh (fun g hg => ?_) hle ?_ (fun ho => (hs.owed i ho).2 hmem)
    (fun B k hB hq => (hs.serves B k i hB hq).2.1 hmem) fun _ _ _ => hmem
  · rw [List.mem_eraseIdx_iff_getElem?, List.mem_iff_getElem?]
    constructor
    · rintro ⟨k, -, hk⟩
      exact ⟨k, hk⟩
    · rintro ⟨k, hk⟩
      refine ⟨k, ?_, hk⟩
      rintro rfl
      rw [hj] at hk
      exact hg (Option.some.inj (Option.some.inj hk)).symm
  · intro hcon
    have hpos := List.count_pos_iff.2 hcon
    have hone := hs.once i
    have hlt := count_eraseIdx_lt (y := some i) hj
    rw [if_pos rfl] at hlt
    omega

end Out

/-! ### Changes of the queries -/

section Changes

variable {φ : HandlerId → Option Post} {T T' : Callbacks} {n i : HandlerId} {ph : Post}

/-- Queries are taken away, but none that is asked for in the active epoch. -/
inductive Thins (φ : HandlerId → Option Post) (T : Callbacks) : Callbacks → Prop
  | gone : Thins φ T { T with table := none }
  | kept {d d' : QueryTable} (hd : T.table = some d) (href : d'.ref = d.ref)
      (hactive : d.active ≤ d'.active)
      (hqueries : ∀ j, d'.queries j = d.queries j ∨ d'.queries j = none)
      (hasked : ∀ j, AskedIn φ d.ref j → j = d'.active → d'.queries j ≠ none)
      (hlock : d'.lock = d.lock ∨ ¬ Starting φ d.ref) :
      Thins φ T { T with table := some d' }

theorem Thins.queue (ht : Thins φ T T') : T'.queue = T.queue := by
  cases ht <;> rfl

theorem Thins.generation (ht : Thins φ T T') : T'.generation = T.generation := by
  cases ht <;> rfl

theorem Thins.lined {B : HandlerId} {j : UInt64} {coroutine : Option HandlerId}
    (ht : Thins φ T T') (hB : Lined φ T' B j coroutine) : Lined φ T B j coroutine := by
  rcases hB with ⟨d₁, hd₁, hB, hj⟩
  cases ht with
  | gone => cases hd₁
  | kept hd href hactive hqueries =>
      cases hd₁
      rcases hqueries j with hsame | hnone
      · exact ⟨_, hd, href ▸ hB, hsame ▸ hj⟩
      · rw [hnone] at hj
        cases hj

theorem Thins.scheduled (ht : Thins φ T T') (hs : Scheduled φ T n) : Scheduled φ T' n where
  parked g hg := hs.parked g (ht.queue ▸ hg)
  once g := ht.queue ▸ hs.once g
  owed a ha := by
    rw [ht.queue]
    exact hs.owed a ha
  debtor := hs.debtor
  session d₁ hd₁ := by
    cases ht with
    | gone => cases hd₁
    | kept hd href =>
        cases hd₁
        rw [href]
        exact hs.session _ hd
  refs ref href := by
    rw [ht.generation]
    exact hs.refs ref href
  asked d₁ j hd₁ hj := by
    cases ht with
    | gone => cases hd₁
    | kept hd href hactive hqueries hasked =>
        cases hd₁
        rw [href] at hj
        exact ⟨UInt64.le_trans (hs.asked _ j hd hj).1 hactive, hasked j hj⟩
  alone := hs.alone
  waits B j coroutine hB hq := hs.waits B j coroutine (ht.lined hB) (ht.queue ▸ hq)
  serves B j a hB hq := by
    rw [ht.queue] at hq ⊢
    exact hs.serves B j a (ht.lined hB) hq
  apart B B' j j' a hB hB' hq hq' := by
    rw [ht.queue] at hq hq'
    exact hs.apart B B' j j' a (ht.lined hB) (ht.lined hB') hq hq'
  points d₁ j g ref k hd₁ hj hg := by
    rw [ht.queue]
    cases ht with
    | gone => cases hd₁
    | kept hd href hactive hqueries =>
        cases hd₁
        rcases hqueries j with hsame | hnone
        · rw [href]
          exact hs.points _ j g ref k hd (hsame ▸ hj) hg
        · rw [hnone] at hj
          cases hj
  named d₁ j g hd₁ hj := by
    cases ht with
    | gone => cases hd₁
    | kept hd href hactive hqueries =>
        cases hd₁
        rcases hqueries j with hsame | hnone
        · exact hs.named _ j g hd (hsame ▸ hj)
        · rw [hnone] at hj
          cases hj
  started D ref waiting hD := by
    rcases hs.started D ref waiting hD with ⟨hlocked, halone⟩
    refine ⟨fun d₁ hd₁ href₁ => ?_, halone⟩
    cases ht with
    | gone => cases hd₁
    | kept hd href hactive hqueries hasked hlock =>
        cases hd₁
        rw [href] at href₁
        rcases hlock with hsame | hnone
        · rw [hsame]
          exact hlocked _ hd href₁
        · exact absurd ⟨D, waiting, href₁ ▸ hD⟩ hnone

theorem Scheduled.mono {n' : HandlerId} (hs : Scheduled φ T n) (hn : n ≤ n') :
    Scheduled φ T n' :=
  ⟨hs.parked, hs.once, hs.owed, hs.debtor, hs.session, hs.refs, hs.asked, hs.alone, hs.waits,
    hs.serves, hs.apart, hs.points, fun d j g hd hj => Nat.lt_of_lt_of_le (hs.named d j g hd hj) hn,
    hs.started⟩

/-- A query is put into an epoch in which nobody asks for one. -/
theorem lined_set {d : QueryTable} {lock : Bool} {index j : UInt64}
    {coroutine coroutine' : Option HandlerId} {B : HandlerId} (hd : T.table = some d)
    (hfree : ¬ AskedIn φ d.ref index)
    (hB : Lined φ { T with table := some { d with
      lock := lock
      queries := Function.update d.queries index (some coroutine) } } B j coroutine') :
    j ≠ index ∧ Lined φ T B j coroutine' := by
  rcases hB with ⟨d₁, hd₁, hB, hj⟩
  cases hd₁
  have hne : j ≠ index := by
    rintro rfl
    exact hfree ⟨B, _, hB, rfl⟩
  dsimp only at hj
  rw [Function.update_of_ne hne] at hj
  exact ⟨hne, d, hd, hB, hj⟩

theorem scheduled_set {d : QueryTable} {lock : Bool} {index : UInt64}
    {coroutine : Option HandlerId} (hs : Scheduled φ T n) (hd : T.table = some d)
    (hfree : ¬ AskedIn φ d.ref index) (hlock : ¬ Starting φ d.ref)
    (hnew : ∀ a, coroutine = some a → a < n ∧ ∀ ref k, φ a ≠ some (.held ref (.queued k))) :
    Scheduled φ { T with table := some { d with
      lock := lock
      queries := Function.update d.queries index (some coroutine) } } n where
  parked := hs.parked
  once := hs.once
  owed := hs.owed
  debtor := hs.debtor
  session d₁ hd₁ := by
    cases hd₁
    exact hs.session d hd
  refs := hs.refs
  asked d₁ j hd₁ hj := by
    cases hd₁
    rcases hs.asked d j hd hj with ⟨hle, hthere⟩
    refine ⟨hle, fun hactive => ?_⟩
    dsimp only
    by_cases hne : j = index
    · subst hne
      rw [Function.update_self]
      exact Option.some_ne_none _
    · rw [Function.update_of_ne hne]
      exact hthere hactive
  alone := hs.alone
  waits B j coroutine' hB hq := hs.waits B j coroutine' (lined_set hd hfree hB).2 hq
  serves B j a hB hq := hs.serves B j a (lined_set hd hfree hB).2 hq
  apart B B' j j' a hB hB' hq hq' :=
    hs.apart B B' j j' a (lined_set hd hfree hB).2 (lined_set hd hfree hB').2 hq hq'
  points d₁ j g ref k hd₁ hj hg := by
    cases hd₁
    dsimp only at hj
    by_cases hne : j = index
    · subst hne
      rw [Function.update_self] at hj
      exact absurd hg ((hnew g (Option.some.inj hj)).2 ref k)
    · rw [Function.update_of_ne hne] at hj
      exact hs.points d j g ref k hd hj hg
  named d₁ j g hd₁ hj := by
    cases hd₁
    dsimp only at hj
    by_cases hne : j = index
    · subst hne
      rw [Function.update_self] at hj
      exact (hnew g (Option.some.inj hj)).1
    · rw [Function.update_of_ne hne] at hj
      exact hs.named d j g hd hj
  started D ref waiting hD := by
    rcases hs.started D ref waiting hD with ⟨hlocked, halone⟩
    refine ⟨fun d₁ hd₁ href => ?_, halone⟩
    cases hd₁
    exact absurd ⟨D, waiting, href ▸ hD⟩ hlock

/-- A handler that rests is put in the completion queue. -/
theorem scheduled_wake {a : HandlerId} (hs : Scheduled φ T n) (hrest : Resting φ a)
    (hout : some a ∉ T.queue) (howed : ¬ Owed φ a)
    (hserved : ∀ B j, Lined φ T B j (some a) → some B ∉ T.queue) :
    Scheduled φ (T.wake (some a)) n := by
  rcases hrest with ⟨pa, hpa, hpr⟩
  have hmem : ∀ g, some g ∈ T.queue ++ [some a] ↔ some g ∈ T.queue ∨ g = a := by
    intro g
    simp
  -- whoever waits in line is not the one that rests
  have hline : ∀ B j coroutine, Lined φ T B j coroutine → B ≠ a := by
    rintro B j coroutine ⟨d, -, hB, -⟩ rfl
    rw [hpa] at hB
    cases hB
    cases hpr
  have hin : ∀ B j coroutine, Lined φ T B j coroutine → some B ∈ T.queue ++ [some a] →
      some B ∈ T.queue := by
    intro B j coroutine hB hq
    rcases (hmem B).1 hq with hq | hq
    · exact hq
    · exact absurd hq (hline B j coroutine hB)
  refine ⟨fun g hg => ?_, fun g => ?_, fun b hb => ?_, hs.debtor, hs.session, hs.refs, hs.asked,
    hs.alone, fun B j coroutine hB hq => ?_, fun B j b hB hq => ?_, fun B B' j j' b hB hB' hq hq' => ?_,
    fun d j g ref k hd hj hg => ?_, hs.named, hs.started⟩
  · rcases (hmem g).1 hg with hg | rfl
    · exact hs.parked g hg
    · exact ⟨pa, hpa, Post.resting_parked hpr⟩
  · show (T.queue ++ [some a]).count (some g) ≤ 1
    rw [List.count_append]
    exact count_append_single hs.once hout g
  · rcases hs.owed b hb with ⟨hrb, hq⟩
    refine ⟨hrb, fun h => ?_⟩
    rcases (hmem b).1 h with h | rfl
    · exact hq h
    · exact howed hb
  · exact hs.waits B j coroutine hB fun h => hq ((hmem B).2 (Or.inl h))
  · have hBq := hin B j _ hB hq
    rcases hs.serves B j b hB hBq with ⟨hrb, hb, hnowed⟩
    refine ⟨hrb, fun h => ?_, hnowed⟩
    rcases (hmem b).1 h with h | rfl
    · exact hb h
    · exact hserved B j hB hBq
  · exact hs.apart B B' j j' b hB hB' (hin B j _ hB hq) (hin B' j' _ hB' hq')
  · rcases hs.points d j g ref k hd hj hg with ⟨href, hk, hq⟩
    refine ⟨href, hk, fun h => ?_⟩
    rcases (hmem g).1 h with h | rfl
    · exact hq h
    · rw [hpa] at hg
      cases hg
      cases hpr

/-- Only one InspectState waits in line for an epoch. -/
theorem Scheduled.lined_alone {B B' : HandlerId} {j : UInt64} {co co' : Option HandlerId}
    (hs : Scheduled φ T n) (hB : Lined φ T B j co) (hB' : Lined φ T B' j co') : B = B' := by
  rcases hB with ⟨d, hd, hB, -⟩
  rcases hB' with ⟨d', hd', hB', -⟩
  rw [hd] at hd'
  cases hd'
  exact hs.alone B B' _ _ (d.ref, j) hB hB' rfl rfl

/-- AdvanceState rests, takes the place of the coroutine in a query, and puts that
    one in the completion queue. It is its own, or that of an InspectState that waits
    in line. -/
theorem scheduled_handOver {d : QueryTable} {lock : Bool} {index : UInt64}
    {coroutine : Option HandlerId} (hs : Scheduled φ T n) (hd : T.table = some d)
    (hq : d.queries index = some coroutine) (hi : Resting φ i) (hin : i < n)
    (hout : some i ∉ T.queue) (howed : ¬ Owed φ i)
    (hserved : ∀ B j, Lined φ T B j (some i) → some B ∉ T.queue)
    (hfound : ∀ g, coroutine = some g → g = i ∨ ∃ ref k, φ g = some (.held ref (.queued k)))
    (hlock : ¬ Starting φ d.ref) :
    Scheduled φ { T with
      table := some { d with
        lock := lock
        queries := Function.update d.queries index (some (some i)) }
      queue := T.queue ++ [coroutine] } n := by
  rcases hi with ⟨pi, hpi, hpr⟩
  have hmem : ∀ g, some g ∈ T.queue ++ [coroutine] ↔ some g ∈ T.queue ∨ coroutine = some g := by
    intro g
    simp [eq_comm]
  have hresting : ∀ a ref k, Resting φ a → φ a ≠ some (.held ref (.queued k)) := by
    rintro a ref k ⟨pa, hpa, hpr⟩ hcon
    rw [hpa] at hcon
    cases hcon
    cases hpr
  have hqueued : ∀ ref k, φ i ≠ some (.held ref (.queued k)) :=
    fun ref k => hresting i ref k ⟨pi, hpi, hpr⟩
  -- the coroutine that was found waits, and only for this
  have hfoundOut : ∀ g, coroutine = some g → some g ∉ T.queue := by
    rintro g rfl
    rcases hfound g rfl with rfl | ⟨ref, k, hg⟩
    · exact hout
    · exact (hs.points d index g ref k hd hq hg).2.2
  have hfoundRests : ∀ a, coroutine = some a → Resting φ a → a = i := by
    rintro a rfl ha
    rcases hfound a rfl with rfl | ⟨ref, k, hg⟩
    · rfl
    · exact absurd hg (hresting a ref k ha)
  have hfoundAt : ∀ B j, coroutine = some B → φ B = some (.held d.ref (.queued j)) → j = index := by
    rintro B j rfl hB
    exact (hs.points d index B d.ref j hd hq hB).2.1
  -- the others that wait in line
  have hother : ∀ B j co, j ≠ index → Lined φ { T with
      table := some { d with
        lock := lock
        queries := Function.update d.queries index (some (some i)) }
      queue := T.queue ++ [coroutine] } B j co → Lined φ T B j co ∧ coroutine ≠ some B := by
    rintro B j co hj ⟨d₁, hd₁, hB, hco⟩
    cases hd₁
    dsimp only at hco
    rw [Function.update_of_ne hj] at hco
    exact ⟨⟨d, hd, hB, hco⟩, fun h => hj (hfoundAt B j h hB)⟩
  have hhere : ∀ B co, Lined φ { T with
      table := some { d with
        lock := lock
        queries := Function.update d.queries index (some (some i)) }
      queue := T.queue ++ [coroutine] } B index co →
        co = some i ∧ B ≠ i ∧ Lined φ T B index coroutine := by
    rintro B co ⟨d₁, hd₁, hB, hco⟩
    cases hd₁
    dsimp only at hco
    rw [Function.update_self] at hco
    refine ⟨(Option.some.inj hco).symm, ?_, d, hd, hB, hq⟩
    rintro rfl
    exact hqueued _ _ hB
  refine ⟨fun g hg => ?_, fun g => ?_, fun a ha => ?_, hs.debtor, fun d₁ hd₁ => ?_, hs.refs,
    fun d₁ j hd₁ hj => ?_, hs.alone, fun B j co hB hBq => ?_, fun B j a hB hBq => ?_,
    fun B B' j j' a hB hB' hBq hBq' => ?_, fun d₁ j g ref k hd₁ hj hg => ?_,
    fun d₁ j g hd₁ hj => ?_, fun D ref waiting hD => ?_⟩
  · rcases (hmem g).1 hg with hg | rfl
    · exact hs.parked g hg
    · rcases hfound g rfl with rfl | ⟨ref, k, hg⟩
      · exact ⟨pi, hpi, Post.resting_parked hpr⟩
      · exact ⟨_, hg, rfl⟩
  · show (T.queue ++ [coroutine]).count (some g) ≤ 1
    rw [List.count_append]
    cases coroutine with
    | none => exact hs.once g
    | some f => exact count_append_single hs.once (hfoundOut f rfl) g
  · rcases hs.owed a ha with ⟨hrest, ha'⟩
    refine ⟨hrest, fun h => ?_⟩
    rcases (hmem a).1 h with h | h
    · exact ha' h
    · cases hfoundRests a h hrest
      exact howed ha
  · cases hd₁
    exact hs.session d hd
  · cases hd₁
    rcases hs.asked d j hd hj with ⟨hle, hthere⟩
    refine ⟨hle, fun hactive => ?_⟩
    dsimp only
    by_cases hne : j = index
    · subst hne
      rw [Function.update_self]
      exact Option.some_ne_none _
    · rw [Function.update_of_ne hne]
      exact hthere hactive
  · have hBout : some B ∉ T.queue ∧ coroutine ≠ some B :=
      ⟨fun h => hBq ((hmem B).2 (Or.inl h)), fun h => hBq ((hmem B).2 (Or.inr h))⟩
    by_cases hj : j = index
    · subst hj
      rcases hhere B co hB with ⟨-, -, hB⟩
      exact absurd (hs.waits B j coroutine hB hBout.1) hBout.2
    · exact hs.waits B j co (hother B j co hj hB).1 hBout.1
  · by_cases hj : j = index
    · subst hj
      rcases hhere B _ hB with ⟨hai, hBi, hline⟩
      cases hai
      refine ⟨⟨pi, hpi, hpr⟩, fun h => ?_, howed⟩
      rcases (hmem i).1 h with h | h
      · exact hout h
      · -- then the handler that waits is in the queue for its own coroutine
        rcases (hmem B).1 hBq with hBq | hBq
        · exact hserved B j (h ▸ hline) hBq
        · rw [h] at hBq
          exact hBi (Option.some.inj hBq).symm
    · rcases hother B j _ hj hB with ⟨hB, hBne⟩
      have hBin : some B ∈ T.queue := ((hmem B).1 hBq).resolve_right hBne
      rcases hs.serves B j a hB hBin with ⟨hrest, ha, hnowed⟩
      refine ⟨hrest, fun h => ?_, hnowed⟩
      rcases (hmem a).1 h with h | h
      · exact ha h
      · cases hfoundRests a h hrest
        exact hserved B j hB hBin
  · by_cases hj : j = index
    · subst hj
      rcases hhere B _ hB with ⟨hai, -, hline⟩
      cases hai
      by_cases hj' : j' = j
      · subst hj'
        rcases hhere B' _ hB' with ⟨-, -, hline'⟩
        exact hs.lined_alone hline hline'
      · rcases hother B' j' _ hj' hB' with ⟨hline', hne⟩
        exact absurd (((hmem B').1 hBq').resolve_right hne) (hserved B' j' hline')
    · rcases hother B j _ hj hB with ⟨hline, hne⟩
      have hBin : some B ∈ T.queue := ((hmem B).1 hBq).resolve_right hne
      by_cases hj' : j' = index
      · subst hj'
        rcases hhere B' _ hB' with ⟨hai, -, -⟩
        cases hai
        exact absurd hBin (hserved B j hline)
      · rcases hother B' j' _ hj' hB' with ⟨hline', hne'⟩
        exact hs.apart B B' j j' a hline hline' hBin (((hmem B').1 hBq').resolve_right hne')
  · cases hd₁
    dsimp only at hj
    by_cases hne : j = index
    · subst hne
      rw [Function.update_self] at hj
      cases hj
      exact absurd hg (hqueued ref k)
    · rw [Function.update_of_ne hne] at hj
      rcases hs.points d j g ref k hd hj hg with ⟨rfl, rfl, hgq⟩
      refine ⟨rfl, rfl, fun h => ?_⟩
      rcases (hmem g).1 h with h | h
      · exact hgq h
      · exact hne (hfoundAt g k h hg)
  · cases hd₁
    dsimp only at hj
    by_cases hne : j = index
    · subst hne
      rw [Function.update_self] at hj
      cases hj
      exact hin
    · rw [Function.update_of_ne hne] at hj
      exact hs.named d j g hd hj
  · rcases hs.started D ref waiting hD with ⟨-, halone⟩
    refine ⟨fun d₁ hd₁ href => ?_, halone⟩
    cases hd₁
    exact absurd ⟨D, waiting, href ▸ hD⟩ hlock

end Changes

end ServerManager
