import Mathlib

/-!
# Merkle Tree Proofs

`merkle_tree_proof`: the claim that the node of size `2 ^ log2TargetSize` at a
given address has a certain hash, together with the hashes of the siblings of
every node on the path from it to the root.

The source stores the siblings in a vector whose first entry is the sibling of
the child of the root and refers to them by the size of the node they stand
for; `siblingIndex` is that translation. The class is a template over the hash
type, and so is the structure here. What the constructor checks is kept as
fields, so that every proof value is one the constructor can build.

Bits of the address are tested with `Nat.testBit`. The source shifts a one by
the level, which is defined for the levels below 64 and so for every tree of at
most `2 ^ 64` bytes.

## Main definitions

* `Hasher`: The pairwise hash and the hash of a word of zeros.
* `MerkleTreeProof`: The proof structure.
* `MerkleTreeProof.new`: The constructor with its three checks.
* `MerkleTreeProof.getSiblingHash`, `setSiblingHash`: Siblings by size.
* `climb`: Hashing upwards through a range of levels.
* `MerkleTreeProof.bubbleUp`, `verify`, `slice`: The operations on proofs.
-/

namespace ServerManager

/-- The two uses the trees make of a hasher: `get_concat_hash` of two hashes,
    and the hash of a word of `2 ^ n` zero bytes. -/
structure Hasher (Hash : Type) where
  concat : Hash → Hash → Hash
  zeroWord : Nat → Hash

/-- A proof that a node of a Merkle tree has a certain hash. -/
structure MerkleTreeProof (Hash : Type) where
  targetAddress : UInt64
  log2TargetSize : Nat
  targetHash : Hash
  log2RootSize : Nat
  rootHash : Hash
  siblingHashes : List Hash
  rootPos : 0 < log2RootSize
  targetLe : log2TargetSize ≤ log2RootSize
  siblingsLength : siblingHashes.length = log2RootSize - log2TargetSize

/-- Hash upwards through `n` levels starting at `level`: at each of them the
    bit of the address tells whether the running hash is the right child. -/
def climb {Hash : Type} (H : Hasher Hash) (address : Nat) (sibling : Nat → Hash) :
    Nat → Nat → Hash → Hash
  | _, 0, hash => hash
  | level, n + 1, hash =>
    climb H address sibling (level + 1) n
      (if address.testBit level then H.concat (sibling level) hash
       else H.concat hash (sibling level))

namespace MerkleTreeProof

variable {Hash : Type} [Inhabited Hash]

/-- The constructor: sizes are `int`s, and room is made for the siblings. -/
def new (log2RootSize log2TargetSize : Int) : Except String (MerkleTreeProof Hash) :=
  if hroot : log2RootSize ≤ 0 then
    .error "log2_root_size is not positive"
  else if htarget : log2TargetSize < 0 then
    .error "log2_target_size is negative"
  else if hle : log2TargetSize > log2RootSize then
    .error "log2_target_size is greater than log2_root_size"
  else
    .ok
      { targetAddress := 0
        log2TargetSize := log2TargetSize.toNat
        targetHash := default
        log2RootSize := log2RootSize.toNat
        rootHash := default
        siblingHashes := List.replicate (log2RootSize.toNat - log2TargetSize.toNat) default
        rootPos := by omega
        targetLe := by omega
        siblingsLength := List.length_replicate }

/-- `log2_size_to_index`: the position of the sibling of size `2 ^ log2Size`. -/
def siblingIndex (p : MerkleTreeProof Hash) (log2Size : Int) : Except String Nat :=
  let index := (p.log2RootSize : Int) - 1 - log2Size
  if index < 0 ∨ index ≥ p.siblingHashes.length then
    .error "log2_size is out of range"
  else
    .ok index.toNat

/-- The sibling of size `2 ^ log2Size`, or the exception of the range check. -/
def getSiblingHash (p : MerkleTreeProof Hash) (log2Size : Int) : Except String Hash :=
  (p.siblingIndex log2Size).map fun index => p.siblingHashes.getD index default

/-- Replace the sibling of size `2 ^ log2Size`. -/
def setSiblingHash (p : MerkleTreeProof Hash) (hash : Hash) (log2Size : Int) :
    Except String (MerkleTreeProof Hash) :=
  (p.siblingIndex log2Size).map fun index =>
    { p with
      siblingHashes := p.siblingHashes.set index hash
      siblingsLength := by rw [List.length_set]; exact p.siblingsLength }

/-- The sibling at a level known to be in range, as the loops over the levels
    of a proof read it. -/
def siblingAt (p : MerkleTreeProof Hash) (level : Nat) : Hash :=
  p.siblingHashes.getD (p.log2RootSize - 1 - level) default

/-- The root hash that a given hash at the target would lead to. -/
def bubbleUp (H : Hasher Hash) (p : MerkleTreeProof Hash) (newTargetHash : Hash) : Hash :=
  climb H p.targetAddress.toNat p.siblingAt p.log2TargetSize
    (p.log2RootSize - p.log2TargetSize) newTargetHash

/-- Whether the target hash leads to the root hash. -/
def verify [DecidableEq Hash] (H : Hasher Hash) (p : MerkleTreeProof Hash) : Bool :=
  p.bubbleUp H p.targetHash = p.rootHash

/-- The part of a proof between two levels of its path, with the hashes at its
    two ends recomputed and the result verified before it is returned. -/
def slice [DecidableEq Hash] (H : Hasher Hash) (p : MerkleTreeProof Hash)
    (newLog2RootSize newLog2TargetSize : Int) : Except String (MerkleTreeProof Hash) :=
  if hroot : newLog2RootSize ≤ 0 then
    .error "log2_root_size is not positive"
  else if htarget : newLog2TargetSize < 0 then
    .error "log2_target_size is negative"
  else if hle : newLog2TargetSize > newLog2RootSize then
    .error "log2_target_size is greater than log2_root_size"
  else if newLog2RootSize > p.log2RootSize then
    .error "log2_root_size is too large"
  else if newLog2TargetSize < p.log2TargetSize then
    .error "log2_target_size is too small"
  else
    let root := newLog2RootSize.toNat
    let target := newLog2TargetSize.toNat
    let address := p.targetAddress.toNat
    let targetHash :=
      climb H address p.siblingAt p.log2TargetSize (target - p.log2TargetSize) p.targetHash
    let rootHash := climb H address p.siblingAt target (root - target) targetHash
    let sliced : MerkleTreeProof Hash :=
      { targetAddress := UInt64.ofNat ((address >>> target) <<< target)
        log2TargetSize := target
        targetHash := targetHash
        log2RootSize := root
        rootHash := rootHash
        siblingHashes := (List.range (root - target)).map fun i => p.siblingAt (root - 1 - i)
        rootPos := by omega
        targetLe := by omega
        siblingsLength := by rw [List.length_map, List.length_range] }
    if sliced.verify H then .ok sliced
    else .error "produced invalid sliced proof"

end MerkleTreeProof

end ServerManager
