import ServerManager.Merkle.Slices

/-!
# Replacing a Leaf Through its Proof

`bubble_up` of a proof computes the root hash of the tree with another hash at
the target. This holds because no sibling on the path of a leaf has the leaf
under it: a sibling differs from the node on the path in the lowest bit of its
position, so the two stand over different leaves. The tree after a push is the
tree before it with one pristine leaf replaced, and so the proof of the next
leaf knows the next root.

## Main definitions

* `leafAddress`: The address of a leaf.

## Theorems

* `sibling_apart`: The sibling on the path of a leaf does not depend on it.
* `Stores.bubbleUp_leaf`: A hash bubbled up from a leaf gives the root of the
  row with that leaf replaced.
* `leaf_proof_predicts`: The next root, and the root after a replacement.
-/

namespace ServerManager

open FullTree

variable {Hash : Type}

/-- The address of the leaf at a position. -/
def leafAddress (k leaf : Nat) : UInt64 := UInt64.ofNat k <<< UInt64.ofNat leaf

/-- The address of a leaf of a tree, without wrap-around. -/
theorem toNat_leafAddress (z : TreeSizes) {k : Nat} (hk : k < z.capacity) :
    (leafAddress k z.leaf).toNat = k * 2 ^ z.leaf ∧ k * 2 ^ z.leaf < 2 ^ z.root := by
  have hpow : 2 ^ (z.root - z.leaf) * 2 ^ z.leaf = 2 ^ z.root := by
    rw [← Nat.pow_add]
    congr 1
    have := z.leafLe
    omega
  have hlt : k * 2 ^ z.leaf < 2 ^ z.root := by
    rw [← hpow]
    exact Nat.mul_lt_mul_of_pos_right hk (Nat.two_pow_pos _)
  have hroot : 2 ^ z.root ≤ 2 ^ 64 := Nat.pow_le_pow_right (by omega) (by have := z.rootLt; omega)
  have hleaf : z.leaf < 64 := by have := z.leafLe; have := z.rootLt; omega
  refine ⟨?_, hlt⟩
  rw [leafAddress, ← UInt64.ofNat_shiftLeft _ _ hleaf, UInt64.toNat_ofNat', Nat.shiftLeft_eq]
  exact Nat.mod_eq_of_lt (Nat.lt_of_lt_of_le hlt hroot)

/-- The position, at a level, of the path from a leaf. -/
theorem leafAddress_shiftRight (z : TreeSizes) {k level : Nat} (hk : k < z.capacity)
    (hlevel : z.leaf ≤ level) :
    (leafAddress k z.leaf).toNat >>> level = k / 2 ^ (level - z.leaf) := by
  have hsum : level = z.leaf + (level - z.leaf) := by omega
  have hstart : (k * 2 ^ z.leaf) >>> z.leaf = k := by
    rw [Nat.shiftRight_eq_div_pow, Nat.mul_div_cancel _ (Nat.two_pow_pos _)]
  rw [(toNat_leafAddress z hk).1, hsum, Nat.shiftRight_add, hstart, Nat.shiftRight_eq_div_pow,
    Nat.add_sub_cancel_left]

/-- The leaf is not one of those under the sibling of a node on its path. -/
theorem sibling_apart {h k j : Nat} (hlow : ((k / 2 ^ h) ^^^ 1) * 2 ^ h ≤ j)
    (hhigh : j < (((k / 2 ^ h) ^^^ 1) + 1) * 2 ^ h) : j ≠ k := by
  rintro rfl
  -- The leaf is under the node at its own position and under no other.
  have hposition : j / 2 ^ h = (j / 2 ^ h) ^^^ 1 :=
    (Nat.div_eq_of_lt_le hlow hhigh)
  have hbit := congrArg (fun i : Nat => i.testBit 0) hposition
  simp at hbit
  omega

/-- The siblings on the path of a leaf are the same for two rows that differ
    at that leaf only. -/
theorem siblingNode_apart (H : Hasher Hash) (z : TreeSizes) {leaves leaves' : List Hash}
    {k level : Nat} (hk : k < z.capacity) (hlevel : z.leaf ≤ level)
    (hsame : ∀ j, j ≠ k → z.row H leaves j = z.row H leaves' j) :
    siblingNode H z leaves (leafAddress k z.leaf).toNat level =
      siblingNode H z leaves' (leafAddress k z.leaf).toNat level := by
  rw [siblingNode, siblingNode, leafAddress_shiftRight z hk hlevel]
  exact node_congr H.concat (fun j hlow hhigh => hsame j (sibling_apart hlow hhigh))

variable [Inhabited Hash]

/-- A hash bubbled up through the proof of a leaf gives the root of any row
    that has the hash there and is otherwise the same. -/
theorem Stores.bubbleUp_leaf {H : Hasher Hash} {z : TreeSizes} {t : CompleteMerkleTree Hash}
    {leaves leaves' : List Hash} (hrep : Stores H z t leaves) {k : Nat} (hk : k < z.capacity)
    {p : MerkleTreeProof Hash} (hproof : t.getProof (leafAddress k z.leaf) z.leaf = .ok p)
    (hsame : ∀ j, j ≠ k → z.row H leaves j = z.row H leaves' j) :
    p.bubbleUp H (z.row H leaves' k) = node H.concat (z.row H leaves') (z.root - z.leaf) 0 := by
  rcases hrep.getProof_fields hproof with ⟨haddress, hsize, hroot, -, hin, -, -, hsiblings⟩
  have htarget : p.log2TargetSize = z.leaf := by omega
  rw [htarget] at hsiblings
  have hleafLe := z.leafLe
  have hat : ∀ level, z.leaf ≤ level → level < z.leaf + (z.root - z.leaf) →
      p.siblingAt level = siblingNode H z leaves' (leafAddress k z.leaf).toNat level := by
    intro level hlow hhigh
    rw [MerkleTreeProof.siblingAt_eq hroot hsiblings hlow (by omega),
      siblingNode_apart H z hk hlow hsame]
  have hclimb := climb_path H z leaves' (leafAddress k z.leaf).toNat p.siblingAt
    (z.root - z.leaf) z.leaf (Nat.le_refl _) hat
  -- The climb starts at the leaf and ends at the root.
  have hstart : node H.concat (z.row H leaves') (z.leaf - z.leaf)
      ((leafAddress k z.leaf).toNat >>> z.leaf) = z.row H leaves' k := by
    rw [leafAddress_shiftRight z hk (Nat.le_refl _), Nat.sub_self, node_zero, Nat.pow_zero,
      Nat.div_one]
  have hsum : z.leaf + (z.root - z.leaf) = z.root := by omega
  have htop : (leafAddress k z.leaf).toNat >>> z.root = 0 := by
    rw [Nat.shiftRight_eq_div_pow]
    exact Nat.div_eq_of_lt hin
  rw [hstart, hsum, htop] at hclimb
  rw [MerkleTreeProof.bubbleUp, haddress, htarget, hroot]
  exact hclimb

/-- The root hash read from a tree. -/
theorem Stores.getRootHash {H : Hasher Hash} {z : TreeSizes} {t : CompleteMerkleTree Hash}
    {leaves : List Hash} (hrep : Stores H z t leaves) :
    t.getRootHash = .ok (node H.concat (z.row H leaves) (z.root - z.leaf) 0) := by
  have hin : z.Inside 0 z.root :=
    (z.inside_iff 0 (by have := z.leafLe; omega) (Int.le_refl _)).mpr (Nat.two_pow_pos _)
  rw [CompleteMerkleTree.getRootHash, hrep.root, hrep.getNodeHash hin, Int.toNat_natCast]
  simp

/-- A leaf that was pushed, read from a tree. -/
theorem Stores.getNodeHash_leaf {H : Hasher Hash} {z : TreeSizes} {t : CompleteMerkleTree Hash}
    {leaves : List Hash} (hrep : Stores H z t leaves) {k : Nat} (hk : k < z.capacity) {leaf : Hash}
    (hleaf : leaves[k]? = some leaf) :
    t.getNodeHash (leafAddress k z.leaf) z.leaf = .ok leaf := by
  have haddress := (toNat_leafAddress z hk).2
  rw [← (toNat_leafAddress z hk).1] at haddress
  have hin : z.Inside (leafAddress k z.leaf) z.leaf :=
    (z.inside_iff _ (Int.le_refl _) (by have := z.leafLe; omega)).mpr haddress
  rw [hrep.getNodeHash hin, Int.toNat_natCast, Nat.sub_self, node_zero,
    leafAddress_shiftRight z hk (Nat.le_refl _), Nat.sub_self, Nat.pow_zero, Nat.div_one]
  simp [TreeSizes.row, padded, hleaf]

/-- The proof of a leaf is there for every position in the tree. -/
theorem Stores.getProof_leaf {H : Hasher Hash} {z : TreeSizes} {t : CompleteMerkleTree Hash}
    {leaves : List Hash} (hrep : Stores H z t leaves) (hpos : 0 < z.root) {k : Nat}
    (hk : k < z.capacity) : ∃ p, t.getProof (leafAddress k z.leaf) z.leaf = .ok p := by
  rcases toNat_leafAddress z hk with ⟨haddress, hin⟩
  have haligned : ((leafAddress k z.leaf).toNat >>> z.leaf) <<< z.leaf =
      (leafAddress k z.leaf).toNat := by
    rw [haddress, Nat.shiftRight_eq_div_pow, Nat.shiftLeft_eq,
      Nat.mul_div_cancel _ (Nat.two_pow_pos _)]
  rcases hrep.getProof_eq hpos (Nat.le_refl _) z.leafLe haligned (haddress ▸ hin) with ⟨p, hp, -⟩
  exact ⟨p, hp⟩

omit [Inhabited Hash] in
/-- Replacing one of the leaves changes the row there only. -/
theorem row_set (H : Hasher Hash) (z : TreeSizes) (leaves : List Hash) {k : Nat} (hash : Hash)
    (hk : k < leaves.length) :
    z.row H (leaves.set k hash) k = hash ∧
      ∀ j, j ≠ k → z.row H leaves j = z.row H (leaves.set k hash) j := by
  refine ⟨by simp [TreeSizes.row, padded, hk], fun j hj => ?_⟩
  simp only [TreeSizes.row, padded, List.getD_eq_getElem?_getD]
  rw [List.getElem?_set_ne hj.symm]

omit [Inhabited Hash] in
/-- Appending a leaf changes the row at the first pristine leaf only. -/
theorem row_push (H : Hasher Hash) (z : TreeSizes) (leaves : List Hash) (hash : Hash) :
    z.row H (leaves ++ [hash]) leaves.length = hash ∧
      ∀ j, j ≠ leaves.length → z.row H leaves j = z.row H (leaves ++ [hash]) j := by
  refine ⟨by simp [TreeSizes.row, padded], fun j hj => ?_⟩
  simp only [TreeSizes.row, padded, List.getD_eq_getElem?_getD]
  rcases Nat.lt_or_gt_of_ne hj with hbefore | hafter
  · rw [List.getElem?_append_left hbefore]
  · rw [List.getElem?_eq_none (by omega),
      List.getElem?_eq_none (by rw [List.length_append, List.length_singleton]; omega)]

/-- In a tree built by `push_back` that is not full, the proof of the next leaf
    predicts the root hash after a further push, and the proof of a pushed leaf
    the root hash of the tree with that leaf replaced. -/
theorem leaf_proof_predicts (H : Hasher Hash) (log2RootSize log2LeafSize log2WordSize : Int)
    (fresh : CompleteMerkleTree Hash)
    (hnew : CompleteMerkleTree.new H log2RootSize log2LeafSize log2WordSize = .ok fresh)
    (hpos : 0 < log2RootSize) (pushed : List Hash)
    (hroom : pushed.length < 2 ^ (log2RootSize - log2LeafSize).toNat) :
    let t := fresh.pushBackAll H pushed
    (∀ hash, ∃ p t',
      t.getProof (UInt64.ofNat pushed.length <<< UInt64.ofNat log2LeafSize.toNat) log2LeafSize =
        .ok p ∧
      t.pushBack H hash = .ok t' ∧ t'.getRootHash = .ok (p.bubbleUp H hash)) ∧
    ∀ k, k < pushed.length → ∀ hash, ∃ p,
      t.getProof (UInt64.ofNat k <<< UInt64.ofNat log2LeafSize.toNat) log2LeafSize = .ok p ∧
      (fresh.pushBackAll H (pushed.set k hash)).getRootHash = .ok (p.bubbleUp H hash) := by
  rcases new_sizes H hnew with ⟨z, rfl, rfl, -, rfl⟩
  have hcapacity : ((z.root : Int) - z.leaf).toNat = z.root - z.leaf := by omega
  rw [hcapacity] at hroom
  have hpos' : 0 < z.root := by omega
  have hbuilt : ∀ leaves : List Hash, leaves.length < z.capacity → Represents H z
      ((CompleteMerkleTree.empty H z.root z.leaf z.word).pushBackAll H leaves) leaves := by
    intro leaves hfit
    have hrep := represents_pushed H z leaves
    rwa [List.take_of_length_le (Nat.le_of_lt hfit)] at hrep
  have hrep := hbuilt pushed hroom
  intro t
  rw [Int.toNat_natCast]
  refine ⟨fun hash => ?_, fun k hk hash => ?_⟩
  · rcases hrep.stores.getProof_leaf hpos' hroom with ⟨p, hp⟩
    rcases hrep.pushBack hash hroom with ⟨t', hpush, hrep'⟩
    rcases row_push H z pushed hash with ⟨hhere, hsame⟩
    have hbubble := hrep.stores.bubbleUp_leaf hroom hp hsame
    rw [hhere] at hbubble
    exact ⟨p, t', hp, hpush, by rw [hbubble]; exact hrep'.stores.getRootHash⟩
  · have hk' : k < z.capacity := Nat.lt_trans hk hroom
    rcases hrep.stores.getProof_leaf hpos' hk' with ⟨p, hp⟩
    have hrep' := hbuilt (pushed.set k hash) (by rw [List.length_set]; exact hroom)
    rcases row_set H z pushed hash hk with ⟨hhere, hsame⟩
    have hbubble := hrep.stores.bubbleUp_leaf hk' hp hsame
    rw [hhere] at hbubble
    exact ⟨p, hp, by rw [hbubble]; exact hrep'.stores.getRootHash⟩

theorem leaf_proof_predicts_sample :
    ∃ fresh p t', CompleteMerkleTree.new sampleHasher 4 2 1 = .ok fresh ∧
      (fresh.pushBackAll sampleHasher [7, 8, 9]).getProof 12 2 = .ok p ∧
      (fresh.pushBackAll sampleHasher [7, 8, 9]).pushBack sampleHasher 5 = .ok t' ∧
      t'.getRootHash = .ok (p.bubbleUp sampleHasher 5) := by
  rcases (leaf_proof_predicts sampleHasher 4 2 1 _ rfl (by decide) [7, 8, 9] (by decide)).1 5 with
    ⟨p, t', hp, hpush, hroot⟩
  exact ⟨_, p, t', rfl, hp, hpush, hroot⟩

end ServerManager
