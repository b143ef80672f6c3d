import Mathlib
import ServerManager.Merkle.Proof

/-!
# Climbing Towards the Root

What the loop of `bubble_up` does to a hash, as a function of the levels it
goes through: two ranges of levels that meet are one range, and only the bits
and the siblings of the levels in the range matter.

Where the pairwise hash tells any two pairs apart, so does the climb. The loop
runs from the target up, but the argument goes from the root down: the hashes
above a level determine the two hashes that were combined there, whichever side
the bit of the address puts the sibling on. Two proofs with the same address
put it on the same side, and this is all that `verified_binding` needs.

## Main definitions

* `MerkleTreeProof.blank`: A proof as the constructor makes it.
* `MerkleTreeProof.withSibling`: A proof with one sibling replaced.
* `pairHasher`: A hasher on numbers that tells any two pairs apart.

## Theorems

* `climb_add`: Two ranges of levels that meet.
* `climb_congr`: What a climb depends on.
* `climb_injective`: Same end, same start and same siblings.
* `MerkleTreeProof.ext_fields`: A proof is its six values.
* `MerkleTreeProof.getSiblingHash_eq`: The siblings on the path are found.
* `MerkleTreeProof.siblingAt_eq`: A vector of siblings listed from the root down.
* `verified_binding`: Verified proofs are binding.
-/

namespace ServerManager

variable {Hash : Type}

/-- Climbing through two ranges of levels that meet is one climb. -/
theorem climb_add (H : Hasher Hash) (address : Nat) (sibling : Nat → Hash)
    (level n m : Nat) (hash : Hash) :
    climb H address sibling (level + n) m (climb H address sibling level n hash) =
      climb H address sibling level (n + m) hash := by
  induction n generalizing level hash with
  | zero => rw [Nat.zero_add]; rfl
  | succ n ih =>
      have hsum : level + (n + 1) = level + 1 + n := by omega
      have hrounds : n + 1 + m = (n + m) + 1 := by omega
      rw [hsum, hrounds, climb, climb, ih]

/-- A climb depends on the bits and the siblings of its levels only. -/
theorem climb_congr (H : Hasher Hash) {address address' : Nat} {sibling sibling' : Nat → Hash}
    (level n : Nat) (hash : Hash)
    (hbit : ∀ k, level ≤ k → k < level + n → address.testBit k = address'.testBit k)
    (hsibling : ∀ k, level ≤ k → k < level + n → sibling k = sibling' k) :
    climb H address sibling level n hash = climb H address' sibling' level n hash := by
  induction n generalizing level hash with
  | zero => rfl
  | succ n ih =>
      rw [climb, climb, hbit level (Nat.le_refl _) (by omega),
        hsibling level (Nat.le_refl _) (by omega)]
      exact ih (level + 1) _ (fun k hk hk' => hbit k (by omega) (by omega))
        (fun k hk hk' => hsibling k (by omega) (by omega))

/-- Two climbs along the same bits that end in the same hash started from the
    same hash and met the same siblings. -/
theorem climb_injective (H : Hasher Hash) (hinjective : Function.Injective2 H.concat)
    (address : Nat) {sibling sibling' : Nat → Hash} (level n : Nat) {hash hash' : Hash}
    (hend : climb H address sibling level n hash = climb H address sibling' level n hash') :
    hash = hash' ∧ ∀ k, level ≤ k → k < level + n → sibling k = sibling' k := by
  induction n generalizing level hash hash' with
  | zero => exact ⟨hend, fun k hk hk' => by omega⟩
  | succ n ih =>
      rw [climb, climb] at hend
      rcases ih (level + 1) hend with ⟨hcombined, habove⟩
      -- What was combined at this level: the two climbs agree on the side.
      have hhere : hash = hash' ∧ sibling level = sibling' level := by
        by_cases hbit : address.testBit level = true
        · rw [if_pos hbit, if_pos hbit] at hcombined
          exact (hinjective hcombined).symm
        · rw [if_neg hbit, if_neg hbit] at hcombined
          exact hinjective hcombined
      refine ⟨hhere.1, fun k hk hk' => ?_⟩
      rcases Nat.eq_or_lt_of_le hk with hlevel | hlater
      · exact hlevel ▸ hhere.2
      · exact habove k hlater (by omega)

namespace MerkleTreeProof

/-- A proof is its six values. -/
theorem ext_fields {p q : MerkleTreeProof Hash} (haddress : p.targetAddress = q.targetAddress)
    (htarget : p.log2TargetSize = q.log2TargetSize) (htargethash : p.targetHash = q.targetHash)
    (hroot : p.log2RootSize = q.log2RootSize) (hroothash : p.rootHash = q.rootHash)
    (hsiblings : p.siblingHashes = q.siblingHashes) : p = q := by
  rcases p with ⟨_, _, _, _, _, _, _, _, _⟩
  rcases q with ⟨_, _, _, _, _, _, _, _, _⟩
  dsimp only at haddress htarget htargethash hroot hroothash hsiblings
  subst haddress htarget htargethash hroot hroothash hsiblings
  rfl

variable [Inhabited Hash]

/-- A proof with room for its siblings. -/
def blank (root target : Nat) (hpos : 0 < root) (hle : target ≤ root) : MerkleTreeProof Hash where
  targetAddress := 0
  log2TargetSize := target
  targetHash := default
  log2RootSize := root
  rootHash := default
  siblingHashes := List.replicate (root - target) default
  rootPos := hpos
  targetLe := hle
  siblingsLength := List.length_replicate

/-- The constructor of proofs on sizes that pass its checks. -/
theorem new_eq {root target : Nat} (hpos : 0 < root) (hle : target ≤ root) :
    (new root target : Except String (MerkleTreeProof Hash)) =
      .ok (blank root target hpos hle) := by
  rw [MerkleTreeProof.new, dif_neg (by omega), dif_neg (by omega), dif_neg (by omega)]
  rfl

/-- A sibling within the path of a proof is found. -/
theorem getSiblingHash_eq (p : MerkleTreeProof Hash) {level : Nat}
    (hlow : p.log2TargetSize ≤ level) (hhigh : level < p.log2RootSize) :
    p.getSiblingHash level = .ok (p.siblingAt level) := by
  have hlength := p.siblingsLength
  have hindex : ((p.log2RootSize : Int) - 1 - level).toNat = p.log2RootSize - 1 - level := by
    omega
  rw [getSiblingHash, siblingIndex, if_neg (by omega), hindex]
  rfl

/-- The siblings of a vector that lists them from the root down. -/
theorem siblingAt_eq {p : MerkleTreeProof Hash} {root target : Nat} {sibling : Nat → Hash}
    (hroot : p.log2RootSize = root)
    (hsiblings : p.siblingHashes = (List.range (root - target)).map fun i =>
      sibling (root - 1 - i))
    {level : Nat} (hlow : target ≤ level) (hhigh : level < root) :
    p.siblingAt level = sibling level := by
  have hindex : root - 1 - level < root - target := by omega
  have hback : root - 1 - (root - 1 - level) = level := by omega
  rw [siblingAt, hsiblings, hroot]
  simp [hindex, hback]

/-- The proof with another sibling at a level. -/
def withSibling (p : MerkleTreeProof Hash) (hash : Hash) (level : Nat) : MerkleTreeProof Hash :=
  { p with
    siblingHashes := p.siblingHashes.set (p.log2RootSize - 1 - level) hash
    siblingsLength := by rw [List.length_set]; exact p.siblingsLength }

omit [Inhabited Hash] in
/-- A sibling within the path of a proof is replaced. -/
theorem setSiblingHash_eq (p : MerkleTreeProof Hash) (hash : Hash) {level : Nat}
    (hlow : p.log2TargetSize ≤ level) (hhigh : level < p.log2RootSize) :
    p.setSiblingHash hash level = .ok (p.withSibling hash level) := by
  have hlength := p.siblingsLength
  have hindex : ((p.log2RootSize : Int) - 1 - level).toNat = p.log2RootSize - 1 - level := by
    omega
  rw [setSiblingHash, siblingIndex, if_neg (by omega), hindex]
  rfl

/-- The siblings after one was replaced. -/
theorem withSibling_siblingAt (p : MerkleTreeProof Hash) (hash : Hash) {level k : Nat}
    (hlow : p.log2TargetSize ≤ level) (hhigh : level < p.log2RootSize)
    (hk : k < p.log2RootSize) :
    (p.withSibling hash level).siblingAt k = if k = level then hash else p.siblingAt k := by
  have hlength := p.siblingsLength
  rw [siblingAt, siblingAt]
  dsimp only [withSibling]
  by_cases hsame : k = level
  · subst hsame
    have hin : p.log2RootSize - 1 - k < p.siblingHashes.length := by omega
    simp [hin]
  · have hapart : p.log2RootSize - 1 - level ≠ p.log2RootSize - 1 - k := by omega
    rw [if_neg hsame, List.getD_eq_getElem?_getD, List.getElem?_set_ne hapart,
      ← List.getD_eq_getElem?_getD]

/-- Proofs of one shape with the same siblings on their paths have the same
    vectors of siblings. -/
theorem siblingHashes_eq {p q : MerkleTreeProof Hash}
    (htarget : p.log2TargetSize = q.log2TargetSize) (hroot : p.log2RootSize = q.log2RootSize)
    (hsame : ∀ level, p.log2TargetSize ≤ level → level < p.log2RootSize →
      p.siblingAt level = q.siblingAt level) :
    p.siblingHashes = q.siblingHashes := by
  have hlength := p.siblingsLength
  have hlength' := q.siblingsLength
  refine List.ext_getElem (by rw [hlength, hlength', htarget, hroot]) (fun i hi hi' => ?_)
  -- Position `i` is that of the level as far below the root.
  have hposition : p.log2RootSize - 1 - (p.log2RootSize - 1 - i) = i := by omega
  have hat := hsame (p.log2RootSize - 1 - i) (by omega) (by omega)
  rw [siblingAt, siblingAt, ← hroot, hposition, List.getD_eq_getElem _ _ hi,
    List.getD_eq_getElem _ _ hi'] at hat
  exact hat

/-- Two verified proofs of the same node of a tree with the same root hash have
    the same target hash and the same siblings. -/
theorem verify_injective [DecidableEq Hash] (H : Hasher Hash)
    (hinjective : Function.Injective2 H.concat) {p q : MerkleTreeProof Hash}
    (hroot : p.log2RootSize = q.log2RootSize) (htarget : p.log2TargetSize = q.log2TargetSize)
    (haddress : p.targetAddress = q.targetAddress) (hroothash : p.rootHash = q.rootHash)
    (hp : p.verify H = true) (hq : q.verify H = true) :
    p.targetHash = q.targetHash ∧ ∀ level, p.log2TargetSize ≤ level → level < p.log2RootSize →
      p.siblingAt level = q.siblingAt level := by
  rw [verify, decide_eq_true_eq, bubbleUp] at hp hq
  rw [← hroot, ← htarget, ← haddress, ← hroothash] at hq
  have hle := p.targetLe
  rcases climb_injective H hinjective _ _ _ (hp.trans hq.symm) with ⟨hhash, hsiblings⟩
  exact ⟨hhash, fun level hlow hhigh => hsiblings level hlow (by omega)⟩

end MerkleTreeProof

variable [Inhabited Hash]

/-- For a pairwise hash that tells any two pairs apart, the root hash, the
    address and the two sizes of a verified proof determine its target hash and
    the sibling at every level. In particular a verified proof with only its
    target hash changed is no longer verified. -/
theorem verified_binding [DecidableEq Hash] (H : Hasher Hash)
    (hinjective : Function.Injective2 H.concat) :
    (∀ p q : MerkleTreeProof Hash, p.log2RootSize = q.log2RootSize →
      p.log2TargetSize = q.log2TargetSize → p.targetAddress = q.targetAddress →
      p.rootHash = q.rootHash → p.verify H = true → q.verify H = true →
      p.targetHash = q.targetHash ∧ p.siblingHashes = q.siblingHashes ∧
      ∀ level : Int, p.log2TargetSize ≤ level → level < p.log2RootSize → ∃ sibling,
        p.getSiblingHash level = .ok sibling ∧ q.getSiblingHash level = .ok sibling) ∧
    ∀ (p : MerkleTreeProof Hash) (hash : Hash), p.verify H = true → hash ≠ p.targetHash →
      ({ p with targetHash := hash } : MerkleTreeProof Hash).verify H = false := by
  refine ⟨fun p q hroot htarget haddress hroothash hp hq => ?_, fun p hash hp hchanged => ?_⟩
  · rcases MerkleTreeProof.verify_injective H hinjective hroot htarget haddress hroothash hp hq with
      ⟨hhash, hsame⟩
    refine ⟨hhash, MerkleTreeProof.siblingHashes_eq htarget hroot hsame, fun level hlow hhigh => ?_⟩
    obtain ⟨k, rfl⟩ : ∃ k : Nat, level = k := ⟨level.toNat, by omega⟩
    refine ⟨p.siblingAt k, p.getSiblingHash_eq (by omega) (by omega), ?_⟩
    rw [q.getSiblingHash_eq (by omega) (by omega), hsame k (by omega) (by omega)]
  · by_contra hverified
    rw [Bool.not_eq_false] at hverified
    -- The changed proof and the proof have everything else in common.
    have hboth := MerkleTreeProof.verify_injective H hinjective
      (p := { p with targetHash := hash }) (q := p) rfl rfl rfl rfl hverified hp
    exact hchanged hboth.1

/-- A hasher on numbers that tells any two pairs apart. -/
def pairHasher : Hasher Nat where
  concat := Nat.pair
  zeroWord size := size

theorem verified_binding_sample :
    ({ targetAddress := 1, log2TargetSize := 0, targetHash := 6, log2RootSize := 1,
       rootHash := Nat.pair 4 5, siblingHashes := [4], rootPos := by decide,
       targetLe := by decide, siblingsLength := rfl } : MerkleTreeProof Nat).verify pairHasher =
      false :=
  (verified_binding pairHasher fun _ _ _ _ hpair => Nat.pair_eq_pair.mp hpair).2
    { targetAddress := 1, log2TargetSize := 0, targetHash := 5, log2RootSize := 1,
      rootHash := Nat.pair 4 5, siblingHashes := [4], rootPos := by decide,
      targetLe := by decide, siblingsLength := rfl } 6 (by decide) (by decide)

end ServerManager
