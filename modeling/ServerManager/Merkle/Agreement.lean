import ServerManager.Merkle.Back
import ServerManager.Merkle.Updates

/-!
# The Two Incremental Trees Agree

`back_merkle_tree` stands for the same padded tree as `complete_merkle_tree`.
Its context holds, for every bit set in the number of leaves, the left sibling
of the path of the next leaf at that height: a subtree that ends before the
next leaf and is therefore complete. Where the bit is clear the sibling is on
the right, behind the next leaf, and therefore pristine. So the loops that pad
the tree climb the path of the next leaf, with all siblings at hand.

A push adds the leaf that path starts from. The carry climbs the path while the
siblings are on the left, through subtrees that are complete with the new leaf,
and what it stores where it stops is the sibling of the next path.

## Main definitions

* `nextSibling`: The sibling, at a height, on the path of the next leaf.
* `Backs`: The context holds the left siblings of that path.

## Theorems

* `left_push`, `carry_eq`: What the loop of `push_back` computes.
* `Backs.pushBack`: A push keeps the correspondence.
* `Backs.sibling_right`, `Backs.rootFrom`, `Backs.proofFrom`: The padding loops.
* `Backs.getRootHash`, `Backs.getNextLeafProof`: What is read from the tree.
* `back_agrees_complete`: The agreement, for any sequence of pushes.
-/

namespace ServerManager

open FullTree

variable {Hash : Type}

/-- The sibling, at a height, of the node on the path of the next leaf. -/
def nextSibling (H : Hasher Hash) (z : TreeSizes) (leaves : List Hash) (h : Nat) : Hash :=
  node H.concat (z.row H leaves) h ((leaves.length / 2 ^ h) ^^^ 1)

/-- One level up on the path of the next leaf. -/
theorem combine_next (H : Hasher Hash) (z : TreeSizes) (leaves : List Hash) (h : Nat) :
    (if leaves.length.testBit h then
        H.concat (nextSibling H z leaves h)
          (node H.concat (z.row H leaves) h (leaves.length / 2 ^ h))
      else H.concat (node H.concat (z.row H leaves) h (leaves.length / 2 ^ h))
        (nextSibling H z leaves h)) =
      node H.concat (z.row H leaves) (h + 1) (leaves.length / 2 ^ (h + 1)) := by
  have hstep := combine_sibling H.concat (z.row H leaves) h (leaves.length / 2 ^ h)
  have hbit : (leaves.length / 2 ^ h).testBit 0 = leaves.length.testBit h := by
    rw [← Nat.shiftRight_eq_div_pow, Nat.testBit_shiftRight, Nat.add_zero]
  rw [hbit, Nat.div_div_eq_div_mul, ← Nat.pow_succ] at hstep
  exact hstep

/-- A left sibling ends before the next leaf, so that the leaf pushed there
    does not change it. -/
theorem left_push (H : Hasher Hash) (z : TreeSizes) (leaves : List Hash) (hash : Hash) {h : Nat}
    (hbit : leaves.length.testBit h = true) :
    node H.concat (z.row H (leaves ++ [hash])) h ((leaves.length / 2 ^ h) ^^^ 1) =
      nextSibling H z leaves h := by
  have hodd := position_eq leaves.length h
  rw [hbit, Bool.toNat_true] at hodd
  have hleft : ((leaves.length / 2 ^ h) ^^^ 1) + 1 = leaves.length / 2 ^ h := by
    rw [Nat.xor_one_of_odd (Nat.odd_iff.mpr (by omega))]
    omega
  refine node_append H (pristineLeaf H z.leaf z.word) leaves [hash] ?_
  rw [hleft]
  exact Nat.div_mul_le_self _ _

/-- A right sibling starts behind the next leaf, so that it is pristine. -/
theorem right_pristine (H : Hasher Hash) (z : TreeSizes) (leaves : List Hash) {h : Nat}
    (hbit : leaves.length.testBit h = false) :
    nextSibling H z leaves h = fullRoot H.concat h fun _ => pristineLeaf H z.leaf z.word := by
  have heven := position_eq leaves.length h
  rw [hbit, Bool.toNat_false] at heven
  have hright : (leaves.length / 2 ^ h) ^^^ 1 = leaves.length / 2 ^ h + 1 :=
    Nat.xor_one_of_even (Nat.even_iff.mpr (by omega))
  refine node_pristine H (pristineLeaf H z.leaf z.word) leaves (Nat.le_of_not_lt fun hlt => ?_)
  have hbefore := lt_levelSize.mp hlt
  rw [hright, Nat.add_mul, Nat.one_mul] at hbefore
  have hdiv := Nat.div_add_mod' leaves.length (2 ^ h)
  have hmod := Nat.mod_lt leaves.length (Nat.two_pow_pos h)
  omega

variable [Inhabited Hash]

/-- The context holds the left siblings of the path of the next leaf. -/
structure Backs (H : Hasher Hash) (z : TreeSizes) (t : BackMerkleTree Hash)
    (leaves : List Hash) : Prop where
  root : t.log2RootSize = z.root
  leaf : t.log2LeafSize = z.leaf
  pristine : t.pristineHashes = PristineMerkleTree.build H z.root z.word
  count : t.leafCount.toNat = leaves.length
  max : t.maxLeaves.toNat = z.capacity
  room : leaves.length ≤ z.capacity
  width : t.context.length = z.root - z.leaf + 1
  blocks : ∀ h, h ≤ z.root - z.leaf → leaves.length.testBit h = true →
    t.context.getD h default = nextSibling H z leaves h

/-- The tree as the constructor makes it. -/
theorem new_backs (H : Hasher Hash) (z : TreeSizes) {t : BackMerkleTree Hash}
    (hnew : BackMerkleTree.new H z.root z.leaf z.word = .ok t) : Backs H z t [] := by
  have hword := z.wordLe
  have hleaf := z.leafLe
  have hroot := z.rootLt
  have hpristine : (PristineMerkleTree.new H z.root z.word : Except String _) =
      .ok (PristineMerkleTree.build H z.root z.word) := by
    rw [PristineMerkleTree.new, if_neg (by omega), if_neg (by omega), if_neg (by omega)]
    rfl
  have hsizes : CompleteMerkleTree.checkLog2Sizes z.root z.leaf z.word = .ok () := by
    rw [CompleteMerkleTree.checkLog2Sizes, if_neg (by omega), if_neg (by omega),
      if_neg (by omega), if_neg (by omega), if_neg (by omega), if_neg (by omega)]
  rw [BackMerkleTree.new, hpristine, hsizes] at hnew
  cases hnew
  have hcapacity : z.capacity < 2 ^ 64 := Nat.pow_lt_pow_right (by omega) (by omega)
  refine ⟨rfl, rfl, rfl, rfl, ?_, Nat.zero_le _, by simp, fun h _ hbit => ?_⟩
  · have hone : (1 : UInt64) = UInt64.ofNat 1 := rfl
    simp only [Int.toNat_natCast]
    rw [hone, ← UInt64.ofNat_shiftLeft _ _ (by omega), UInt64.toNat_ofNat', Nat.one_shiftLeft]
    exact Nat.mod_eq_of_lt hcapacity
  · simp at hbit

/-- The loop of `push_back` from a height that the carry has reached: it stores
    the node over the new leaf at the first height whose bit is clear. -/
theorem carry_eq (H : Hasher Hash) (z : TreeSizes) (leaves : List Hash) (hash : Hash)
    (leafCount : UInt64) (hcount : leafCount.toNat = leaves.length) (context : List Hash)
    (hroom : leaves.length < z.capacity)
    (hblocks : ∀ h, h ≤ z.root - z.leaf → leaves.length.testBit h = true →
      context.getD h default = nextSibling H z leaves h)
    (n h : Nat) (hheight : h + n = z.root - z.leaf) (hcarried : Carried leaves.length h) :
    ∃ stop, stop ≤ z.root - z.leaf ∧ leaves.length.testBit stop = false ∧
      Carried leaves.length stop ∧
      carry H leafCount h (n + 1)
          (node H.concat (z.row H (leaves ++ [hash])) h (leaves.length / 2 ^ h)) context =
        context.set stop
          (node H.concat (z.row H (leaves ++ [hash])) stop (leaves.length / 2 ^ stop)) := by
  induction n generalizing h with
  | zero =>
      -- The tree is not full, so the bit of its own height is clear.
      have hclear : leaves.length.testBit h = false := by
        refine Nat.testBit_lt_two_pow ?_
        rw [show h = z.root - z.leaf by omega]
        exact hroom
      refine ⟨h, by omega, hclear, hcarried, ?_⟩
      rw [carry, hcount, hclear]
      rfl
  | succ n ih =>
      by_cases hbit : leaves.length.testBit h = true
      · rcases ih (h + 1) (by omega) (carried_succ hcarried hbit) with
          ⟨stop, hstop, hclear, hcarried', hset⟩
        refine ⟨stop, hstop, hclear, hcarried', ?_⟩
        have hup := combine_sibling H.concat (z.row H (leaves ++ [hash])) h (leaves.length / 2 ^ h)
        have hodd : (leaves.length / 2 ^ h).testBit 0 = true := by
          rw [← Nat.shiftRight_eq_div_pow, Nat.testBit_shiftRight, Nat.add_zero]
          exact hbit
        rw [if_pos hodd, left_push H z leaves hash hbit, ← hblocks h (by omega) hbit,
          Nat.div_div_eq_div_mul, ← Nat.pow_succ] at hup
        rw [carry, hcount, if_pos hbit, hup]
        exact hset
      · have hclear : leaves.length.testBit h = false := Bool.eq_false_iff.mpr hbit
        refine ⟨h, by omega, hclear, hcarried, ?_⟩
        rw [carry, hcount, if_neg hbit]

namespace Backs

variable {H : Hasher Hash} {z : TreeSizes} {t : BackMerkleTree Hash} {leaves : List Hash}

theorem depth_eq (hrep : Backs H z t leaves) : t.depth = z.root - z.leaf := by
  rw [BackMerkleTree.depth, hrep.root, hrep.leaf]

/-- The tree is full when all leaves are there. -/
theorem full_iff (hrep : Backs H z t leaves) :
    t.leafCount ≥ t.maxLeaves ↔ z.capacity ≤ leaves.length := by
  rw [ge_iff_le, UInt64.le_iff_toNat_le, hrep.count, hrep.max]

/-- A push on a tree with room appends the leaf. -/
theorem pushBack (hrep : Backs H z t leaves) (hash : Hash) (hroom : leaves.length < z.capacity) :
    ∃ t', t.pushBack H hash = .ok t' ∧ Backs H z t' (leaves ++ [hash]) := by
  have hnot : ¬ t.leafCount ≥ t.maxLeaves := by
    rw [hrep.full_iff]
    omega
  have hleaf : node H.concat (z.row H (leaves ++ [hash])) 0 (leaves.length / 2 ^ 0) = hash := by
    rw [node_zero, Nat.pow_zero, Nat.div_one]
    exact (row_push H z leaves hash).1
  rcases carry_eq H z leaves hash t.leafCount hrep.count t.context hroom hrep.blocks
    (z.root - z.leaf) 0 (Nat.zero_add _) (carried_zero _) with
    ⟨stop, hstop, hclear, hcarried, hset⟩
  rw [hleaf, ← hrep.depth_eq] at hset
  have hlength : (leaves ++ [hash]).length = leaves.length + 1 := by simp
  have hcapacity : z.capacity < 2 ^ 64 :=
    Nat.pow_lt_pow_right (by omega) (by have := z.rootLt; omega)
  refine ⟨_, if_neg hnot, hrep.root, hrep.leaf, hrep.pristine, ?_, hrep.max, ?_, ?_, ?_⟩
  · have hcount := hrep.count
    dsimp only
    rw [UInt64.toNat_add, hcount, hlength]
    exact Nat.mod_eq_of_lt (by rw [UInt64.toNat_one]; omega)
  · omega
  · dsimp only
    rw [hset, List.length_set, hrep.width]
  · intro h hh hbit
    dsimp only
    rw [hlength] at hbit
    rw [hset, nextSibling, hlength]
    rcases Nat.lt_trichotomy h stop with hbelow | hat | habove
    · -- The carry has passed here, so the bit is clear.
      rw [carry_below hcarried hbelow] at hbit
      cases hbit
    · subst hat
      have hin : h < t.context.length := by rw [hrep.width]; omega
      rw [carry_at hcarried hclear]
      simp [hin]
    · have hsame := carry_above hcarried hclear habove
      have hbit' : leaves.length.testBit h = true := by
        rw [Nat.testBit_eq_decide_div_mod_eq] at hbit ⊢
        rwa [hsame] at hbit
      rw [hsame, left_push H z leaves hash hbit', ← hrep.blocks h hh hbit',
        List.getD_eq_getElem?_getD, List.getElem?_set_ne (by omega),
        ← List.getD_eq_getElem?_getD]

/-- The pristine hash of a height is there. -/
theorem pristine_getHash (hrep : Backs H z t leaves) {h : Nat} (hh : h ≤ z.root - z.leaf) :
    t.pristineHashes.getHash (t.log2LeafSize + h) =
      .ok (fullRoot H.concat h fun _ => pristineLeaf H z.leaf z.word) := by
  have hword := z.wordLe
  have hleaf := z.leafLe
  rw [hrep.pristine, hrep.leaf, PristineMerkleTree.getHash]
  have hin : ¬ ((z.leaf : Int) + h < (PristineMerkleTree.build H z.root z.word).log2WordSize ∨
      (z.leaf : Int) + h > (PristineMerkleTree.build H z.root z.word).log2RootSize) := by
    simp only [PristineMerkleTree.build]
    omega
  have hheight : ((z.leaf : Int) + h).toNat -
      (PristineMerkleTree.build H z.root z.word).log2WordSize = z.leaf - z.word + h := by
    simp only [PristineMerkleTree.build]
    omega
  rw [if_neg hin, pristineLeaf, fullRoot_const_add, hheight, pristine_getD H (by omega)]

/-- The pristine hash of a height whose bit is clear is the right sibling. -/
theorem sibling_right (hrep : Backs H z t leaves) {h : Nat} (hh : h ≤ z.root - z.leaf)
    (hbit : leaves.length.testBit h = false) :
    t.pristineHashes.getHash (t.log2LeafSize + h) = .ok (nextSibling H z leaves h) := by
  rw [hrep.pristine_getHash hh, right_pristine H z leaves hbit]

/-- The next leaf is pristine. -/
theorem next_pristine (hrep : Backs H z t leaves) :
    t.pristineHashes.getHash t.log2LeafSize = .ok (z.row H leaves leaves.length) := by
  have hhash := hrep.pristine_getHash (Nat.zero_le _)
  have hlevel : (t.log2LeafSize : Int) + (0 : Nat) = t.log2LeafSize := by omega
  rw [hlevel] at hhash
  rw [hhash]
  simp [TreeSizes.row, padded, fullRoot]

/-- The loop of `get_root_hash` climbs the path of the next leaf. -/
theorem rootFrom (hrep : Backs H z t leaves) (n h : Nat) (hheight : h + n = z.root - z.leaf) :
    t.rootFrom H h n (node H.concat (z.row H leaves) h (leaves.length / 2 ^ h)) =
      .ok (node H.concat (z.row H leaves) (h + n) (leaves.length / 2 ^ (h + n))) := by
  induction n generalizing h with
  | zero => rfl
  | succ n ih =>
      have hup := combine_next H z leaves h
      have hsum : h + 1 + n = h + (n + 1) := by omega
      have hrest := ih (h + 1) (by omega)
      rw [hsum] at hrest
      rw [BackMerkleTree.rootFrom, hrep.count]
      by_cases hbit : leaves.length.testBit h = true
      · rw [if_pos hbit] at hup ⊢
        rw [hrep.blocks h (by omega) hbit, hup]
        exact hrest
      · rw [if_neg hbit] at hup ⊢
        rw [hrep.sibling_right (by omega) (Bool.eq_false_iff.mpr hbit)]
        dsimp only [bind, Except.bind]
        rw [hup]
        exact hrest

/-- The root hash is the root of the padded tree. -/
theorem getRootHash (hrep : Backs H z t leaves) :
    t.getRootHash H = .ok (node H.concat (z.row H leaves) (z.root - z.leaf) 0) := by
  rw [BackMerkleTree.getRootHash]
  by_cases hroom : leaves.length < z.capacity
  · have hnot : t.leafCount < t.maxLeaves := by
      rw [UInt64.lt_iff_toNat_lt, hrep.count, hrep.max]
      exact hroom
    have hclimb := hrep.rootFrom (z.root - z.leaf) 0 (Nat.zero_add _)
    have htop : leaves.length / 2 ^ (z.root - z.leaf) = 0 := Nat.div_eq_of_lt hroom
    rw [node_zero, Nat.pow_zero, Nat.div_one, Nat.zero_add, htop] at hclimb
    rw [if_pos hnot, hrep.next_pristine, hrep.depth_eq]
    exact hclimb
  · -- A full tree is one complete subtree, at the end of the context.
    have hfull : leaves.length = 2 ^ (z.root - z.leaf) :=
      Nat.le_antisymm hrep.room (Nat.le_of_not_lt hroom)
    have hnot : ¬ t.leafCount < t.maxLeaves := by
      rw [UInt64.lt_iff_toNat_lt, hrep.count, hrep.max]
      exact hroom
    have hbit : leaves.length.testBit (z.root - z.leaf) = true := by
      rw [hfull, Nat.testBit_two_pow_self]
    rw [if_neg hnot, hrep.depth_eq, hrep.blocks _ (Nat.le_refl _) hbit, nextSibling, hfull,
      Nat.div_self (Nat.two_pow_pos _)]
    rfl

/-- The loop of `get_next_leaf_proof` climbs the path of the next leaf and
    fills in the siblings of the levels it goes through. -/
theorem proofFrom (hrep : Backs H z t leaves) (n h : Nat) (hheight : h + n = z.root - z.leaf)
    (p : MerkleTreeProof Hash) (hroot : p.log2RootSize = z.root)
    (htarget : p.log2TargetSize = z.leaf)
    (hbelow : ∀ k, k < h → p.siblingAt (z.leaf + k) = nextSibling H z leaves k) :
    ∃ q, t.proofFrom H h n p (node H.concat (z.row H leaves) h (leaves.length / 2 ^ h)) =
        .ok (q, node H.concat (z.row H leaves) (h + n) (leaves.length / 2 ^ (h + n))) ∧
      q.log2RootSize = z.root ∧ q.log2TargetSize = z.leaf ∧
      q.targetAddress = p.targetAddress ∧ q.targetHash = p.targetHash ∧
      ∀ k, k < h + n → q.siblingAt (z.leaf + k) = nextSibling H z leaves k := by
  induction n generalizing h p with
  | zero => exact ⟨p, rfl, hroot, htarget, rfl, rfl, hbelow⟩
  | succ n ih =>
      have hset := p.setSiblingHash_eq (nextSibling H z leaves h)
        (show p.log2TargetSize ≤ z.leaf + h by omega) (by omega)
      have hlevel : ((z.leaf + h : Nat) : Int) = t.log2LeafSize + h := by rw [hrep.leaf]; omega
      rw [hlevel] at hset
      have hbelow' : ∀ k, k < h + 1 →
          (p.withSibling (nextSibling H z leaves h) (z.leaf + h)).siblingAt (z.leaf + k) =
            nextSibling H z leaves k := by
        intro k hk
        rw [p.withSibling_siblingAt _ (by omega) (by omega) (by omega)]
        by_cases hsame : k = h
        · rw [if_pos (by omega), hsame]
        · rw [if_neg (by omega), hbelow k (by omega)]
      rcases ih (h + 1) (by omega) (p.withSibling (nextSibling H z leaves h) (z.leaf + h)) hroot
        htarget hbelow' with ⟨q, hq, hroot', htarget', haddress, hhash, hfilled⟩
      have hsum : h + 1 + n = h + (n + 1) := by omega
      rw [hsum] at hq hfilled
      refine ⟨q, ?_, hroot', htarget', haddress, hhash, hfilled⟩
      have hup := combine_next H z leaves h
      rw [BackMerkleTree.proofFrom, hrep.count]
      by_cases hbit : leaves.length.testBit h = true
      · rw [if_pos hbit] at hup ⊢
        rw [hrep.blocks h (by omega) hbit]
        dsimp only
        rw [hset, hup]
        exact hq
      · rw [if_neg hbit] at hup ⊢
        rw [hrep.sibling_right (by omega) (Bool.eq_false_iff.mpr hbit)]
        dsimp only [bind, Except.bind]
        rw [hset, hup]
        exact hq

/-- The proof of the next leaf is the one that the complete tree gives. -/
theorem getNextLeafProof [DecidableEq Hash] (hrep : Backs H z t leaves)
    {complete : CompleteMerkleTree Hash} (hstores : Stores H z complete leaves)
    (hpos : 0 < z.root) (hroom : leaves.length < z.capacity) (debug : Bool) :
    ∃ p, t.getNextLeafProof H debug = .ok p ∧
      complete.getProof (leafAddress leaves.length z.leaf) z.leaf = .ok p := by
  rcases hstores.getProof_leaf hpos hroom with ⟨p, hp⟩
  rcases hstores.getProof_fields hp with
    ⟨haddress, hsize, hroot, -, -, htargethash, hroothash, hsiblings⟩
  have htarget : p.log2TargetSize = z.leaf := by omega
  rw [htarget] at hsiblings htargethash
  -- What the loop collects, starting from an empty proof.
  let blank : MerkleTreeProof Hash := MerkleTreeProof.blank z.root z.leaf hpos z.leafLe
  rcases hrep.proofFrom (z.root - z.leaf) 0 (Nat.zero_add _)
    { blank with
      targetAddress := leafAddress leaves.length z.leaf
      targetHash := z.row H leaves leaves.length } rfl rfl (fun k hk => absurd hk (by omega)) with
    ⟨q, hloop, hroot', htarget', haddress', hhash', hfilled⟩
  have htop : leaves.length / 2 ^ (z.root - z.leaf) = 0 := Nat.div_eq_of_lt hroom
  rw [node_zero, Nat.pow_zero, Nat.div_one, Nat.zero_add, htop] at hloop
  -- The same values as those of the proof of the complete tree.
  have hsame : { q with
      rootHash := node H.concat (z.row H leaves) (z.root - z.leaf) 0 } = p := by
    refine MerkleTreeProof.ext_fields ?_ (htarget'.trans htarget.symm) ?_
      (hroot'.trans hroot.symm) hroothash.symm ?_
    · dsimp only
      rw [haddress', haddress]
    · dsimp only
      rw [hhash', htargethash, leafAddress_shiftRight z hroom (Nat.le_refl _), Nat.sub_self,
        node_zero, Nat.pow_zero, Nat.div_one]
    · refine MerkleTreeProof.siblingHashes_eq (htarget'.trans htarget.symm)
        (hroot'.trans hroot.symm) (fun level hlow hhigh => ?_)
      dsimp only at hlow hhigh
      have hat : z.leaf + (level - z.leaf) = level := by omega
      have hleft := hfilled (level - z.leaf) (by omega)
      rw [hat] at hleft
      rw [MerkleTreeProof.siblingAt_eq hroot hsiblings (by omega) (by omega), siblingNode,
        leafAddress_shiftRight z hroom (by omega)]
      exact hleft
  have hverify := hstores.getProof_verify hp
  have haddr : t.leafCount <<< UInt64.ofNat z.leaf = leafAddress leaves.length z.leaf := by
    rw [leafAddress, ← hrep.count, UInt64.ofNat_toNat]
  have hnot : ¬ t.leafCount ≥ t.maxLeaves := by
    rw [hrep.full_iff]
    omega
  have hnext := hrep.next_pristine
  refine ⟨p, ?_, hp⟩
  rw [BackMerkleTree.getNextLeafProof, if_neg hnot, hnext, hrep.depth_eq, hrep.root, hrep.leaf,
    MerkleTreeProof.new_eq hpos z.leafLe, haddr]
  dsimp only [bind, Except.bind]
  rw [hloop]
  dsimp only
  rw [hsame, hverify]
  simp [pure, Except.pure]

/-- One call on a tree with room. -/
theorem call (hrep : Backs H z t leaves) (hash : Hash) (hroom : leaves.length < z.capacity) :
    (t.pushBackCall H hash).2 = .ok () ∧
      Backs H z (t.pushBackCall H hash).1 (leaves ++ [hash]) := by
  rcases hrep.pushBack hash hroom with ⟨t', hpush, hrep'⟩
  rw [BackMerkleTree.pushBackCall, hpush]
  exact ⟨rfl, hrep'⟩

/-- One call on a full tree. -/
theorem call_full (hrep : Backs H z t leaves) (hash : Hash) (hfull : leaves.length = z.capacity) :
    t.pushBackCall H hash = (t, .error "too many leaves") := by
  have hpush : t.pushBack H hash = .error "too many leaves" :=
    if_pos (hrep.full_iff.mpr (Nat.le_of_eq hfull.symm))
  rw [BackMerkleTree.pushBackCall, hpush]

/-- Any sequence of calls: the tree holds the leaves there was room for. -/
theorem calls (hrep : Backs H z t leaves) (hashes : List Hash) :
    Backs H z (t.pushBackAll H hashes) ((leaves ++ hashes).take z.capacity) := by
  induction hashes generalizing t leaves with
  | nil =>
      rw [List.append_nil, List.take_of_length_le hrep.room]
      exact hrep
  | cons hash hashes ih =>
      rw [BackMerkleTree.pushBackAll, List.foldl_cons]
      rcases Nat.lt_or_eq_of_le hrep.room with hroom | hfull
      · have hstep := ih (hrep.call hash hroom).2
        rw [List.append_assoc] at hstep
        exact hstep
      · have hstep := ih (hrep.call_full hash hfull ▸ hrep :
          Backs H z (t.pushBackCall H hash).1 leaves)
        rw [List.take_append_of_le_length (Nat.le_of_eq hfull.symm)] at hstep ⊢
        exact hstep

end Backs

/-- `back_merkle_tree` and `complete_merkle_tree` agree, for sizes that both
    constructors accept and any sequence of `push_back` calls on both: a further
    call is accepted by both or by none, the root hashes are the same, and so
    are the proofs of the next leaf while there is one. -/
theorem back_agrees_complete [DecidableEq Hash] (H : Hasher Hash)
    (log2RootSize log2LeafSize log2WordSize : Int)
    (back : BackMerkleTree Hash) (complete : CompleteMerkleTree Hash)
    (hback : BackMerkleTree.new H log2RootSize log2LeafSize log2WordSize = .ok back)
    (hcomplete : CompleteMerkleTree.new H log2RootSize log2LeafSize log2WordSize = .ok complete)
    (hashes : List Hash) :
    let b := back.pushBackAll H hashes
    let c := complete.pushBackAll H hashes
    (∀ hash, (b.pushBackCall H hash).2 = .ok () ↔ (c.pushBackCall H hash).2 = .ok ()) ∧
    (∃ root, b.getRootHash H = .ok root ∧ c.getRootHash = .ok root) ∧
    ∀ debug : Bool, hashes.length < 2 ^ (log2RootSize - log2LeafSize).toNat → 0 < log2RootSize →
      ∃ p, b.getNextLeafProof H debug = .ok p ∧
        c.getProof (UInt64.ofNat hashes.length <<< UInt64.ofNat log2LeafSize.toNat) log2LeafSize =
          .ok p := by
  rcases new_sizes H hcomplete with ⟨z, rfl, rfl, rfl, rfl⟩
  have hcapacity : ((z.root : Int) - z.leaf).toNat = z.root - z.leaf := by omega
  have hb : Backs H z (back.pushBackAll H hashes) (hashes.take z.capacity) :=
    (new_backs H z hback).calls hashes
  have hc := represents_pushed H z hashes
  intro b c
  refine ⟨fun hash => ?_, ⟨_, hb.getRootHash, hc.stores.getRootHash⟩, fun debug hroom hpos => ?_⟩
  · rcases Nat.lt_or_eq_of_le hb.room with hroom | hfull
    · exact ⟨fun _ => (hc.call hash hroom).1, fun _ => (hb.call hash hroom).1⟩
    · rw [hb.call_full hash hfull, hc.call_full hash hfull]
      simp
  · rw [hcapacity] at hroom
    rw [List.take_of_length_le (Nat.le_of_lt hroom : hashes.length ≤ z.capacity)] at hb hc
    rw [Int.toNat_natCast]
    exact hb.getNextLeafProof hc.stores (by omega) hroom debug

theorem back_agrees_complete_sample :
    ∃ back complete, BackMerkleTree.new sampleHasher 4 2 1 = .ok back ∧
      CompleteMerkleTree.new sampleHasher 4 2 1 = .ok complete ∧
      ∃ p, (back.pushBackAll sampleHasher [7, 8, 9]).getNextLeafProof sampleHasher true = .ok p ∧
        (complete.pushBackAll sampleHasher [7, 8, 9]).getProof 12 2 = .ok p :=
  ⟨_, _, rfl, rfl, (back_agrees_complete sampleHasher 4 2 1 _ _ rfl rfl [7, 8, 9]).2.2 true
    (by decide) (by decide)⟩

end ServerManager
