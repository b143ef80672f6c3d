import ServerManager.Merkle.Climb
import ServerManager.Merkle.Refinement

/-!
# Proofs Taken from a Complete Tree

`get_proof` collects the siblings on the path from a node to the root, finding
each by flipping one bit of the address of the node. `verify` climbs the same
path, with the same bits telling left from right. Both walks are over the
positions `address >>> level` of the padded tree: flipping the bit of a level
flips the lowest bit of the position there, and a step up halves it.

## Main definitions

* `siblingNode`: The sibling of the node on the path at a level.

## Theorems

* `siblingsFrom_eq`: The collected siblings are those of the padded tree.
* `climb_nodes`, `climb_path`: Climbing with these siblings stays on the path.
* `getProof_ok`: The proof of a node of the tree.
* `get_proof_correct`: When `get_proof` throws, and what it returns otherwise.
-/

namespace ServerManager

open FullTree

variable {Hash : Type}

/-- The sibling, in the padded tree, of the node at a level on the path from
    an address to the root. -/
def siblingNode (H : Hasher Hash) (z : TreeSizes) (leaves : List Hash) (address level : Nat) :
    Hash :=
  node H.concat (z.row H leaves) (level - z.leaf) ((address >>> level) ^^^ 1)

/-- Climbing with the siblings of the nodes on a path stays on the path. -/
theorem climb_nodes (H : Hasher Hash) (leaf : Nat → Hash) (base address : Nat)
    (sibling : Nat → Hash) (n level : Nat) (hbase : base ≤ level)
    (hsibling : ∀ k, level ≤ k → k < level + n →
      sibling k = node H.concat leaf (k - base) ((address >>> k) ^^^ 1)) :
    climb H address sibling level n (node H.concat leaf (level - base) (address >>> level)) =
      node H.concat leaf (level + n - base) (address >>> (level + n)) := by
  induction n generalizing level with
  | zero => rfl
  | succ n ih =>
      have hstep := combine_sibling H.concat leaf (level - base) (address >>> level)
      -- One level up the position is halved.
      have hheight : level - base + 1 = level + 1 - base := by omega
      have hhalf : (address >>> level) / 2 = address >>> (level + 1) := by
        rw [Nat.shiftRight_succ]
      have hbit : (address >>> level).testBit 0 = address.testBit level := by
        rw [Nat.testBit_shiftRight, Nat.add_zero]
      rw [hheight, hhalf, hbit] at hstep
      rw [climb, hsibling level (Nat.le_refl _) (by omega), hstep,
        ih (level + 1) (by omega) (fun k hk hk' => hsibling k (by omega) (by omega))]
      have hsum : level + 1 + n = level + (n + 1) := by omega
      rw [hsum]

/-- Climbing with the siblings of the tree stays on the path. -/
theorem climb_path (H : Hasher Hash) (z : TreeSizes) (leaves : List Hash) (address : Nat)
    (sibling : Nat → Hash) (n level : Nat) (hleaf : z.leaf ≤ level)
    (hsibling : ∀ k, level ≤ k → k < level + n →
      sibling k = siblingNode H z leaves address k) :
    climb H address sibling level n
        (node H.concat (z.row H leaves) (level - z.leaf) (address >>> level)) =
      node H.concat (z.row H leaves) (level + n - z.leaf) (address >>> (level + n)) :=
  climb_nodes H (z.row H leaves) z.leaf address sibling n level hleaf hsibling

/-- Flipping the bit of a level flips the lowest bit of the position there. -/
theorem flipped_shiftRight (address : UInt64) {level : Nat} (hlevel : level < 64) :
    (address ^^^ UInt64.ofNat (2 ^ level)).toNat >>> level = (address.toNat >>> level) ^^^ 1 := by
  have hpow : 2 ^ level < 2 ^ 64 := Nat.pow_lt_pow_right (by decide) hlevel
  have hflip : (UInt64.ofNat (2 ^ level)).toNat = 2 ^ level := by
    rw [UInt64.toNat_ofNat']
    exact Nat.mod_eq_of_lt hpow
  rw [UInt64.toNat_xor, hflip, Nat.shiftRight_xor_distrib, Nat.shiftRight_eq_div_pow (2 ^ level),
    Nat.div_self (Nat.two_pow_pos level)]

/-- The alignment check of `get_proof`, on numbers. -/
theorem aligned_iff {address : UInt64} {k : Nat} :
    address = UInt64.ofNat ((address.toNat >>> k) <<< k) ↔
      (address.toNat >>> k) <<< k = address.toNat := by
  have hle : (address.toNat >>> k) <<< k ≤ address.toNat := by
    rw [Nat.shiftRight_eq_div_pow, Nat.shiftLeft_eq]
    exact Nat.div_mul_le_self _ _
  have hlt : (address.toNat >>> k) <<< k < 2 ^ 64 :=
    Nat.lt_of_le_of_lt hle address.toNat_lt
  rw [← UInt64.toNat_inj, UInt64.toNat_ofNat', Nat.mod_eq_of_lt hlt]
  exact eq_comm

namespace TreeSizes

/-- For a size of the tree, the node is inside exactly when the address is. -/
theorem inside_iff (z : TreeSizes) (address : UInt64) {log2Size : Int}
    (hleaf : (z.leaf : Int) ≤ log2Size) (hroot : log2Size ≤ z.root) :
    z.Inside address log2Size ↔ address.toNat < 2 ^ z.root := by
  have hpow : 2 ^ (z.root - log2Size.toNat) * 2 ^ log2Size.toNat = 2 ^ z.root := by
    rw [← Nat.pow_add]
    congr 1
    omega
  simp only [Inside, hleaf, hroot, true_and]
  rw [Nat.shiftRight_eq_div_pow, Nat.div_lt_iff_lt_mul (Nat.two_pow_pos _), hpow]

/-- The sibling of a node inside the tree is inside the tree. -/
theorem inside_flipped (z : TreeSizes) {address : UInt64} (hin : address.toNat < 2 ^ z.root)
    {level : Nat} (hleaf : z.leaf ≤ level) (hroot : level < z.root) :
    z.Inside (address ^^^ UInt64.ofNat (2 ^ level)) level := by
  have hlevel : level < 64 := by have := z.rootLt; omega
  have hpos := (z.inside_iff address (by omega : (z.leaf : Int) ≤ level) (by omega)).mpr hin
  refine ⟨by omega, by omega, ?_⟩
  rw [Int.toNat_natCast, flipped_shiftRight address hlevel]
  refine Nat.xor_lt_two_pow ?_ (Nat.one_lt_two_pow (by omega))
  simpa using hpos.2.2

end TreeSizes

variable [Inhabited Hash]

namespace Stores

variable {H : Hasher Hash} {z : TreeSizes} {t : CompleteMerkleTree Hash} {leaves : List Hash}

/-- The hash that `get_proof` reads for the sibling at a level. -/
theorem getNodeHash_flipped (hrep : Stores H z t leaves) {address : UInt64}
    (hin : address.toNat < 2 ^ z.root) {level : Nat} (hleaf : z.leaf ≤ level)
    (hroot : level < z.root) :
    t.getNodeHash (address ^^^ UInt64.ofNat (2 ^ level)) level =
      .ok (siblingNode H z leaves address.toNat level) := by
  rw [hrep.getNodeHash (z.inside_flipped hin hleaf hroot), Int.toNat_natCast,
    flipped_shiftRight address (by have := z.rootLt; omega)]
  rfl

/-- The collected siblings, the one next to the root first. -/
theorem siblingsFrom_eq (hrep : Stores H z t leaves) {address : UInt64}
    (hin : address.toNat < 2 ^ z.root) (n level : Nat) (hleaf : z.leaf ≤ level)
    (hroot : level + n = z.root) :
    ∃ siblings, t.siblingsFrom address level n = .ok siblings ∧
      siblings.1 = (List.range n).map fun i =>
        siblingNode H z leaves address.toNat (z.root - 1 - i) := by
  induction n generalizing level with
  | zero => exact ⟨_, rfl, rfl⟩
  | succ n ih =>
      rcases ih (level + 1) (by omega) (by omega) with ⟨above, habove, hlist⟩
      refine ⟨⟨above.1 ++ [siblingNode H z leaves address.toNat level], by simp [above.2]⟩,
        ?_, ?_⟩
      · rw [CompleteMerkleTree.siblingsFrom, hrep.getNodeHash_flipped hin hleaf (by omega), habove]
        rfl
      · have hlast : z.root - 1 - n = level := by omega
        dsimp only
        rw [List.range_succ, List.map_append, hlist, List.map_singleton, hlast]

/-- The proof of an aligned node of the tree. -/
theorem getProof_ok (hrep : Stores H z t leaves) {address : UInt64} {log2Size : Nat}
    (hpos : 0 < z.root) (hleaf : z.leaf ≤ log2Size) (hroot : log2Size ≤ z.root)
    (haligned : (address.toNat >>> log2Size) <<< log2Size = address.toNat)
    (hin : address.toNat < 2 ^ z.root) :
    ∃ p, t.getProof address log2Size = .ok p ∧ p.targetAddress = address ∧
      p.log2TargetSize = log2Size ∧ p.log2RootSize = z.root ∧
      t.getRootHash = .ok p.rootHash ∧ t.getNodeHash address log2Size = .ok p.targetHash ∧
      p.siblingHashes = (List.range (z.root - log2Size)).map fun i =>
        siblingNode H z leaves address.toNat (z.root - 1 - i) := by
  have hinside := (z.inside_iff address (by omega : (z.leaf : Int) ≤ log2Size) (by omega)).mpr hin
  have hrootin : z.Inside 0 z.root :=
    (z.inside_iff 0 (by omega) (Int.le_refl _)).mpr (Nat.two_pow_pos _)
  rcases hrep.siblingsFrom_eq hin (z.root - log2Size) log2Size hleaf (by omega) with
    ⟨siblings, hsiblings, hlist⟩
  rcases t with ⟨rootSize, leafSize, pristine, levels⟩
  obtain rfl : rootSize = z.root := hrep.root
  obtain rfl : leafSize = z.leaf := hrep.leaf
  have htarget := hrep.getNodeHash hinside
  have hroothash := hrep.getNodeHash hrootin
  have hrange : ¬ ((log2Size : Int) < z.leaf ∨ (log2Size : Int) > z.root) := by omega
  have hsame : ¬ address ≠ UInt64.ofNat
      ((address.toNat >>> (log2Size : Int).toNat) <<< (log2Size : Int).toNat) := by
    rw [Int.toNat_natCast, haligned]
    simp
  let blank : MerkleTreeProof Hash := MerkleTreeProof.blank z.root log2Size hpos hroot
  refine ⟨{ blank with
    rootHash := _
    targetAddress := address
    targetHash := _
    siblingHashes := siblings.1
    siblingsLength := siblings.2 }, ?_, rfl, rfl, rfl, hroothash, htarget, hlist⟩
  simp only [CompleteMerkleTree.getProof, CompleteMerkleTree.getRootHash, hroothash, htarget]
  rw [if_neg hrange, if_neg hsame, MerkleTreeProof.new_eq hpos hroot]
  simp only [bind, Except.bind, pure, Except.pure]
  have hread : CompleteMerkleTree.siblingsFrom _ address blank.log2TargetSize
      (blank.log2RootSize - blank.log2TargetSize) = _ := hsiblings
  rw [hread]
  rfl

/-- Whatever `get_proof` returns for a node of the tree is accepted, and its
    siblings are those of the tree. -/
theorem getProof_verifies [DecidableEq Hash] (hrep : Stores H z t leaves) {address : UInt64}
    {log2Size : Nat} (hleaf : z.leaf ≤ log2Size) (hin : address.toNat < 2 ^ z.root)
    {p : MerkleTreeProof Hash} (haddress : p.targetAddress = address)
    (htarget : p.log2TargetSize = log2Size) (hroot : p.log2RootSize = z.root)
    (hroothash : t.getRootHash = .ok p.rootHash)
    (htargethash : t.getNodeHash address log2Size = .ok p.targetHash)
    (hsiblings : p.siblingHashes = (List.range (z.root - log2Size)).map fun i =>
      siblingNode H z leaves address.toNat (z.root - 1 - i)) :
    (∀ level, log2Size ≤ level → level < z.root →
      p.siblingAt level = siblingNode H z leaves address.toNat level) ∧ p.verify H = true := by
  have hle : log2Size ≤ z.root := htarget ▸ hroot ▸ p.targetLe
  have hat : ∀ level, log2Size ≤ level → level < z.root →
      p.siblingAt level = siblingNode H z leaves address.toNat level :=
    fun level hlow hhigh => MerkleTreeProof.siblingAt_eq hroot hsiblings hlow hhigh
  refine ⟨hat, ?_⟩
  -- Both ends of the climb are nodes of the padded tree.
  have hinside := (z.inside_iff address (by omega : (z.leaf : Int) ≤ log2Size) (by omega)).mpr hin
  have hnode := hrep.getNodeHash hinside
  rw [htargethash, Except.ok.injEq, Int.toNat_natCast] at hnode
  have hrootin : z.Inside 0 z.root :=
    (z.inside_iff 0 (by have := z.leafLe; omega) (Int.le_refl _)).mpr (Nat.two_pow_pos _)
  have hrootnode := hrep.getNodeHash hrootin
  rw [← hrep.root, ← CompleteMerkleTree.getRootHash, hroothash, Except.ok.injEq,
    Int.toNat_natCast, hrep.root] at hrootnode
  have hclimb := climb_path H z leaves address.toNat p.siblingAt (z.root - log2Size) log2Size
    hleaf (fun k hk hk' => hat k hk (by omega))
  have hsum : log2Size + (z.root - log2Size) = z.root := by omega
  have htop : address.toNat >>> z.root = 0 := by
    rw [Nat.shiftRight_eq_div_pow]
    exact Nat.div_eq_of_lt hin
  rw [MerkleTreeProof.verify, decide_eq_true_eq, MerkleTreeProof.bubbleUp, haddress, htarget,
    hroot, hnode, hclimb, hsum, htop, hrootnode]
  simp

/-- A size or an address that is no aligned node of the tree is refused. -/
theorem getProof_error (hrep : Stores H z t leaves) {address : UInt64} {log2Size : Int}
    (hout : log2Size < z.leaf ∨ (z.root : Int) < log2Size ∨
      (address.toNat >>> log2Size.toNat) <<< log2Size.toNat ≠ address.toNat ∨
      2 ^ z.root ≤ address.toNat) :
    ∃ message, t.getProof address log2Size = .error message := by
  rw [CompleteMerkleTree.getProof, hrep.root, hrep.leaf]
  by_cases hrange : log2Size < z.leaf ∨ log2Size > z.root
  · rw [if_pos hrange]
    exact ⟨_, rfl⟩
  · rw [if_neg hrange]
    by_cases haligned : address = UInt64.ofNat
        ((address.toNat >>> log2Size.toNat) <<< log2Size.toNat)
    · -- Aligned and of a size of the tree, so it is the address that is too large.
      rw [if_neg (not_not_intro haligned)]
      have hfar : 2 ^ z.root ≤ address.toNat := by
        have hback := aligned_iff.mp haligned
        rcases hout with hsmall | hlarge | hmisaligned | hfar
        · omega
        · omega
        · exact absurd hback hmisaligned
        · exact hfar
      have hnode := hrep.getNodeHash_outside (fun hin : z.Inside address log2Size =>
        absurd ((z.inside_iff address (by omega) (by omega)).mp hin) (Nat.not_lt_of_le hfar))
      simp only [bind, Except.bind, hnode]
      cases (MerkleTreeProof.new z.root log2Size : Except String (MerkleTreeProof Hash)) with
      | error message => exact ⟨message, rfl⟩
      | ok blank =>
          cases t.getRootHash with
          | error message => exact ⟨message, rfl⟩
          | ok rootHash => exact ⟨_, rfl⟩
    · rw [if_pos haligned]
      exact ⟨_, rfl⟩

end Stores

/-- `get_proof` throws exactly for a size that is none of the tree's, for a
    misaligned address and for an address outside the tree. Otherwise the proof
    holds the root hash, the hash of the node and the sibling at every level,
    and it verifies. -/
theorem get_proof_correct [DecidableEq Hash] (H : Hasher Hash)
    (log2RootSize log2LeafSize log2WordSize : Int) (fresh : CompleteMerkleTree Hash)
    (hnew : CompleteMerkleTree.new H log2RootSize log2LeafSize log2WordSize = .ok fresh)
    (hpos : 0 < log2RootSize) (pushed : List Hash) (log2Size : Int) (address : UInt64) :
    let t := fresh.pushBackAll H pushed
    ((∃ message, t.getProof address log2Size = .error message) ↔
      log2Size < log2LeafSize ∨ log2RootSize < log2Size ∨
        ¬ 2 ^ log2Size.toNat ∣ address.toNat ∨ 2 ^ log2RootSize.toNat ≤ address.toNat) ∧
    ∀ p, t.getProof address log2Size = .ok p →
      p.targetAddress = address ∧ (p.log2TargetSize : Int) = log2Size ∧
      (p.log2RootSize : Int) = log2RootSize ∧
      t.getRootHash = .ok p.rootHash ∧ t.getNodeHash address log2Size = .ok p.targetHash ∧
      (∀ level : Int, log2Size ≤ level → level < log2RootSize → ∃ sibling,
        p.getSiblingHash level = .ok sibling ∧
        t.getNodeHash (address ^^^ UInt64.ofNat (2 ^ level.toNat)) level = .ok sibling) ∧
      p.verify H = true := by
  rcases new_sizes H hnew with ⟨z, rfl, rfl, rfl, rfl⟩
  have hrep := (represents_pushed H z pushed).stores
  intro t
  have hdivides : 2 ^ log2Size.toNat ∣ address.toNat ↔
      (address.toNat >>> log2Size.toNat) <<< log2Size.toNat = address.toNat := by
    rw [Nat.shiftRight_eq_div_pow, Nat.shiftLeft_eq, Nat.dvd_iff_div_mul_eq]
  rw [hdivides]
  by_cases hout : log2Size < z.leaf ∨ (z.root : Int) < log2Size ∨
      (address.toNat >>> log2Size.toNat) <<< log2Size.toNat ≠ address.toNat ∨
      2 ^ z.root ≤ address.toNat
  · -- Refused, so there is no proof to speak of.
    rcases hrep.getProof_error hout with ⟨message, herror⟩
    have herror' : t.getProof address log2Size = .error message := herror
    refine ⟨⟨fun _ => hout, fun _ => ⟨message, herror'⟩⟩, fun p hp => ?_⟩
    rw [herror'] at hp
    cases hp
  · obtain ⟨size, rfl⟩ : ∃ size : Nat, log2Size = size := ⟨log2Size.toNat, by omega⟩
    rw [Int.toNat_natCast] at hout
    have haligned : (address.toNat >>> size) <<< size = address.toNat := by
      by_contra hne
      exact hout (Or.inr (Or.inr (Or.inl hne)))
    have hin : address.toNat < 2 ^ z.root := by omega
    have hleaf : z.leaf ≤ size := by omega
    rcases hrep.getProof_ok (by omega) hleaf (by omega) haligned hin with
      ⟨p, hp, haddress, htarget, hroot, hroothash, htargethash, hsiblings⟩
    rcases hrep.getProof_verifies hleaf hin haddress htarget hroot hroothash htargethash
      hsiblings with ⟨hat, hverify⟩
    have hp' : t.getProof address (size : Int) = .ok p := hp
    refine ⟨⟨fun ⟨message, herror⟩ => ?_, fun hrefused => absurd hrefused hout⟩,
      fun q hq => ?_⟩
    · rw [hp'] at herror
      cases herror
    · obtain rfl : p = q := Except.ok.inj (hp'.symm.trans hq)
      refine ⟨haddress, by rw [htarget], by rw [hroot], hroothash, htargethash, ?_, hverify⟩
      intro level hlow hhigh
      obtain ⟨k, rfl⟩ : ∃ k : Nat, level = k := ⟨level.toNat, by omega⟩
      refine ⟨siblingNode H z (pushed.take z.capacity) address.toNat k, ?_,
        hrep.getNodeHash_flipped hin (by omega) (by omega)⟩
      rw [p.getSiblingHash_eq (by omega) (by omega), hat k (by omega) (by omega)]

theorem get_proof_correct_sample :
    ∃ fresh, CompleteMerkleTree.new sampleHasher 4 2 1 = .ok fresh ∧
      ¬ ∃ message, (fresh.pushBackAll sampleHasher [7, 8, 9]).getProof 8 3 = .error message := by
  refine ⟨_, rfl, ?_⟩
  rw [(get_proof_correct sampleHasher 4 2 1 _ rfl (by decide) [7, 8, 9] 3 8).1]
  decide

end ServerManager
