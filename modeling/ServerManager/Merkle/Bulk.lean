import ServerManager.Merkle.Refinement

/-!
# Trees Built at Once

`complete_merkle_tree` can be built empty and filled by `push_back`, or built
from a vector of leaves with one pass of `bubble_up` over levels that are all
empty. Both are `Stores.grow`, once with one leaf at a time and once with all
of them, so for leaves that fit the two trees are the same.

Only `push_back` looks at the room in the tree. A vector with too many leaves
is accepted, and what comes out stores more than one hash at the root level.

## Main definitions

* `CompleteMerkleTree.pushEach`: The pushes that stop at the first exception.
* `SameTree`: Both outcomes are exceptions, or the same tree.
* `CompleteMerkleTree.Made`: The trees that calls of the class lead to.

## Theorems

* `Stores.eq`: What a tree stores determines it.
* `Represents.pushEach`: Pushing leaves that fit, one by one.
* `Represents.pushEach_full`: Pushing more leaves than fit.
* `Made.stores`: Every tree stores the nodes of some row of leaves.
* `bulk_matches_pushes`: When the two ways of building a tree agree.
-/

namespace ServerManager

open FullTree

variable {Hash : Type} [Inhabited Hash]

/-- Push leaves one by one, until a push throws. -/
def CompleteMerkleTree.pushEach (H : Hasher Hash) :
    List Hash → CompleteMerkleTree Hash → Except String (CompleteMerkleTree Hash)
  | [], t => .ok t
  | hash :: rest, t => do
    let pushed ← t.pushBack H hash
    pushEach H rest pushed

/-- Both outcomes are exceptions, or both are the same tree. -/
def SameTree : Except String (CompleteMerkleTree Hash) →
    Except String (CompleteMerkleTree Hash) → Prop
  | .ok t, .ok t' => t = t'
  | .error _, .error _ => True
  | _, _ => False

/-- The trees that the constructors and `push_back` lead to. -/
inductive CompleteMerkleTree.Made (H : Hasher Hash) : CompleteMerkleTree Hash → Prop
  | new {log2RootSize log2LeafSize log2WordSize : Int} {t : CompleteMerkleTree Hash}
      (hnew : CompleteMerkleTree.new H log2RootSize log2LeafSize log2WordSize = .ok t) : Made H t
  | ofLeaves {log2RootSize log2LeafSize log2WordSize : Int} {leaves : List Hash}
      {t : CompleteMerkleTree Hash}
      (hbuilt : CompleteMerkleTree.ofLeaves H log2RootSize log2LeafSize log2WordSize leaves =
        .ok t) : Made H t
  | pushBack {t t' : CompleteMerkleTree Hash} {hash : Hash} (hmade : Made H t)
      (hpush : t.pushBack H hash = .ok t') : Made H t'

omit [Inhabited Hash] in
/-- The sizes and the leaves determine the tree that stores them. -/
theorem Stores.eq {H : Hasher Hash} {z : TreeSizes} {t t' : CompleteMerkleTree Hash}
    {leaves : List Hash} (hrep : Stores H z t leaves) (hrep' : Stores H z t' leaves) : t = t' := by
  rcases t with ⟨root, leaf, pristine, levels⟩
  rcases t' with ⟨root', leaf', pristine', levels'⟩
  have hroot : root = root' := hrep.root.trans hrep'.root.symm
  have hleaf : leaf = leaf' := hrep.leaf.trans hrep'.leaf.symm
  have hpristine : pristine = pristine' := hrep.pristine.trans hrep'.pristine.symm
  have hlevels : levels = levels' := hrep.levels.trans hrep'.levels.symm
  rw [hroot, hleaf, hpristine, hlevels]

/-- The constructor from leaves, on sizes that the constructor accepts. -/
theorem ofLeaves_stores (H : Hasher Hash) {log2RootSize log2LeafSize log2WordSize : Int}
    {fresh : CompleteMerkleTree Hash}
    (hnew : CompleteMerkleTree.new H log2RootSize log2LeafSize log2WordSize = .ok fresh)
    {z : TreeSizes} (hfresh : Stores H z fresh []) (leaves : List Hash) :
    ∃ t, CompleteMerkleTree.ofLeaves H log2RootSize log2LeafSize log2WordSize leaves = .ok t ∧
      Stores H z t leaves := by
  have hgrown := hfresh.grow leaves
  rw [List.nil_append] at hgrown
  refine ⟨_, ?_, hgrown⟩
  rw [CompleteMerkleTree.ofLeaves, hnew]
  rfl

namespace Represents

variable {H : Hasher Hash} {z : TreeSizes} {t : CompleteMerkleTree Hash} {leaves : List Hash}

/-- Pushing leaves that fit, one by one. -/
theorem pushEach (hrep : Represents H z t leaves) (more : List Hash)
    (hfit : leaves.length + more.length ≤ z.capacity) :
    ∃ t', t.pushEach H more = .ok t' ∧ Represents H z t' (leaves ++ more) := by
  induction more generalizing t leaves with
  | nil => exact ⟨t, rfl, by rw [List.append_nil]; exact hrep⟩
  | cons hash more ih =>
      rw [List.length_cons] at hfit
      rcases hrep.pushBack hash (by omega) with ⟨pushed, hpush, hpushed⟩
      have hfit' : (leaves ++ [hash]).length + more.length ≤ z.capacity := by
        rw [List.length_append, List.length_singleton]
        omega
      rcases ih hpushed hfit' with ⟨t', hmore, hrep'⟩
      refine ⟨t', ?_, ?_⟩
      · rw [CompleteMerkleTree.pushEach, hpush]
        exact hmore
      · rw [List.append_assoc] at hrep'
        exact hrep'

/-- Pushing more leaves than fit throws at the first that does not. -/
theorem pushEach_full (hrep : Represents H z t leaves) (more : List Hash)
    (hover : z.capacity < leaves.length + more.length) :
    t.pushEach H more = .error "tree is full" := by
  induction more generalizing t leaves with
  | nil => exact absurd hrep.room (Nat.not_le_of_lt hover)
  | cons hash more ih =>
      rw [List.length_cons] at hover
      rcases Nat.lt_or_eq_of_le hrep.room with hroom | hfull
      · rcases hrep.pushBack hash hroom with ⟨pushed, hpush, hpushed⟩
        have hover' : z.capacity < (leaves ++ [hash]).length + more.length := by
          rw [List.length_append, List.length_singleton]
          omega
        rw [CompleteMerkleTree.pushEach, hpush]
        exact ih hpushed hover'
      · rw [CompleteMerkleTree.pushEach, hrep.pushBack_full hash hfull]
        rfl

end Represents

/-- Every tree stores the nodes of the padded tree over some row of leaves,
    more of them than it has room for only if it was built from a vector. -/
theorem CompleteMerkleTree.Made.stores {H : Hasher Hash} {t : CompleteMerkleTree Hash}
    (hmade : CompleteMerkleTree.Made H t) : ∃ z leaves, Stores H z t leaves := by
  induction hmade with
  | new hnew =>
      rcases new_sizes H hnew with ⟨z, -, -, -, rfl⟩
      exact ⟨z, [], (represents_empty H z).stores⟩
  | @ofLeaves log2RootSize log2LeafSize log2WordSize leaves t hbuilt =>
      -- The tree was first built empty, and then its leaf level was replaced.
      cases hnew : CompleteMerkleTree.new H log2RootSize log2LeafSize log2WordSize with
      | error message =>
          rw [CompleteMerkleTree.ofLeaves, hnew] at hbuilt
          cases hbuilt
      | ok fresh =>
          rcases new_sizes H hnew with ⟨z, -, -, -, rfl⟩
          rcases ofLeaves_stores H hnew (represents_empty H z).stores leaves with
            ⟨t', hbuilt', hrep⟩
          obtain rfl : t' = t := Except.ok.inj (hbuilt'.symm.trans hbuilt)
          exact ⟨z, leaves, hrep⟩
  | @pushBack t t' hash hmade hpush ih =>
      rcases ih with ⟨z, leaves, hrep⟩
      rw [CompleteMerkleTree.pushBack, hrep.leaves_eq] at hpush
      dsimp only at hpush
      split at hpush
      · cases hpush
      · cases hpush
        exact ⟨z, leaves ++ [hash], hrep.grow [hash]⟩

/-- For sizes that the constructor accepts, building the tree from a vector of
    leaves and pushing them one by one onto an empty tree have the same outcome,
    and no tree with more leaves than it has room for is built, exactly when
    the leaves fit. -/
theorem bulk_matches_pushes (H : Hasher Hash) (log2RootSize log2LeafSize log2WordSize : Int)
    (fresh : CompleteMerkleTree Hash)
    (hnew : CompleteMerkleTree.new H log2RootSize log2LeafSize log2WordSize = .ok fresh)
    (leaves : List Hash) :
    (SameTree (CompleteMerkleTree.ofLeaves H log2RootSize log2LeafSize log2WordSize leaves)
        (fresh.pushEach H leaves) ∧
      ∀ t, CompleteMerkleTree.ofLeaves H log2RootSize log2LeafSize log2WordSize leaves = .ok t →
        t.size ≤ 2 ^ (log2RootSize - log2LeafSize).toNat) ↔
    leaves.length ≤ 2 ^ (log2RootSize - log2LeafSize).toNat := by
  rcases new_sizes H hnew with ⟨z, rfl, rfl, -, rfl⟩
  have hcapacity : ((z.root : Int) - z.leaf).toNat = z.root - z.leaf := by omega
  have hempty := represents_empty H z
  rcases ofLeaves_stores H hnew hempty.stores leaves with ⟨t, hbuilt, hrep⟩
  rw [hbuilt, hcapacity]
  constructor
  · rintro ⟨-, hsize⟩
    have hle := hsize t rfl
    rwa [hrep.size_eq] at hle
  · intro hfit
    rcases hempty.pushEach leaves (by rw [List.length_nil, Nat.zero_add]; exact hfit) with
      ⟨t', hpushes, hrep'⟩
    refine ⟨?_, fun built hok => ?_⟩
    · rw [hpushes]
      exact hrep.eq hrep'.stores
    · obtain rfl : t = built := Except.ok.inj hok
      rw [hrep.size_eq]
      exact hfit

/-- Two leaves for a tree of one: the vector is accepted, the second push
    is not. -/
theorem bulk_overfull :
    ∃ fresh t, CompleteMerkleTree.new sampleHasher 1 1 0 = .ok fresh ∧
      CompleteMerkleTree.ofLeaves sampleHasher 1 1 0 [7, 8] = .ok t ∧
      t.size = 2 ∧ (2 : Nat) ^ (1 - 1) < t.size ∧
      fresh.pushEach sampleHasher [7, 8] = .error "tree is full" ∧
      ¬ SameTree (CompleteMerkleTree.ofLeaves sampleHasher 1 1 0 [7, 8])
        (fresh.pushEach sampleHasher [7, 8]) :=
  ⟨_, _, rfl, rfl, rfl, by decide, rfl, id⟩

theorem bulk_matches_pushes_sample :
    ∃ fresh, CompleteMerkleTree.new sampleHasher 4 2 1 = .ok fresh ∧
      SameTree (CompleteMerkleTree.ofLeaves sampleHasher 4 2 1 [7, 8, 9])
        (fresh.pushEach sampleHasher [7, 8, 9]) :=
  ⟨_, rfl, ((bulk_matches_pushes sampleHasher 4 2 1 _ rfl [7, 8, 9]).mpr (by decide)).1⟩

end ServerManager
