import ServerManager.Merkle.Complete

/-!
# Back Merkle Trees

`back_merkle_tree`: the same tree as `complete_merkle_tree`, kept for a stream
of leaves in as many hashes as the tree has levels. Entry `i` of the context is
the root of a complete subtree of `2 ^ i` leaves, and means something only
while bit `i` of the number of leaves is set. A push is an increment of that
number, with the carry combining the subtrees.

The constructor makes the checks of `complete_merkle_tree` in the same order,
after those of the pristine hashes. `get_next_leaf_proof` verifies its result
when the program is compiled with assertions, which the flag `debug` stands for.

## Main definitions

* `BackMerkleTree`: The count of leaves and the context.
* `carry`: The loop of `push_back`.
* `BackMerkleTree.new`, `pushBack`, `getRootHash`, `getNextLeafProof`: The
  operations.
-/

namespace ServerManager

variable {Hash : Type} [Inhabited Hash]

/-- A tree that stores one hash for each level. -/
structure BackMerkleTree (Hash : Type) where
  log2RootSize : Nat
  log2LeafSize : Nat
  leafCount : UInt64
  maxLeaves : UInt64
  context : List Hash
  pristineHashes : PristineMerkleTree Hash

/-- The loop of `push_back` from entry `i` on: a complete subtree is combined
    with the one to its right, which then takes the place of the first subtree
    that is not there. -/
def carry (H : Hasher Hash) (leafCount : UInt64) : Nat → Nat → Hash → List Hash → List Hash
  | _, 0, _, context => context
  | i, n + 1, right, context =>
    if leafCount.toNat.testBit i then
      carry H leafCount (i + 1) n (H.concat (context.getD i default) right) context
    else
      context.set i right

namespace BackMerkleTree

/-- The constructor. -/
def new (H : Hasher Hash) (log2RootSize log2LeafSize log2WordSize : Int) :
    Except String (BackMerkleTree Hash) := do
  let pristineHashes ← PristineMerkleTree.new H log2RootSize log2WordSize
  CompleteMerkleTree.checkLog2Sizes log2RootSize log2LeafSize log2WordSize
  let depth := log2RootSize.toNat - log2LeafSize.toNat
  return {
    log2RootSize := log2RootSize.toNat
    log2LeafSize := log2LeafSize.toNat
    leafCount := 0
    maxLeaves := 1 <<< UInt64.ofNat depth
    context := List.replicate (depth + 1) default
    pristineHashes := pristineHashes }

/-- The number of levels above the leaves. -/
def depth (t : BackMerkleTree Hash) : Nat := t.log2RootSize - t.log2LeafSize

/-- Append a leaf, unless the tree is full. -/
def pushBack (H : Hasher Hash) (t : BackMerkleTree Hash) (leafHash : Hash) :
    Except String (BackMerkleTree Hash) :=
  if t.leafCount ≥ t.maxLeaves then
    .error "too many leaves"
  else
    .ok { t with
      context := carry H t.leafCount 0 (t.depth + 1) leafHash t.context
      leafCount := t.leafCount + 1 }

/-- The loop of `get_root_hash` from level `i` on, with the hash of the
    rightmost subtree so far. -/
def rootFrom (H : Hasher Hash) (t : BackMerkleTree Hash) : Nat → Nat → Hash → Except String Hash
  | _, 0, root => .ok root
  | i, n + 1, root =>
    if t.leafCount.toNat.testBit i then
      rootFrom H t (i + 1) n (H.concat (t.context.getD i default) root)
    else do
      let right ← t.pristineHashes.getHash (t.log2LeafSize + i)
      rootFrom H t (i + 1) n (H.concat root right)

/-- The root hash, with pristine leaves added up to the size of the tree. -/
def getRootHash (H : Hasher Hash) (t : BackMerkleTree Hash) : Except String Hash :=
  if t.leafCount < t.maxLeaves then do
    let root ← t.pristineHashes.getHash t.log2LeafSize
    t.rootFrom H 0 t.depth root
  else
    .ok (t.context.getD t.depth default)

/-- The loop of `get_next_leaf_proof` from level `i` on, with the proof so far
    and the running hash. -/
def proofFrom (H : Hasher Hash) (t : BackMerkleTree Hash) :
    Nat → Nat → MerkleTreeProof Hash → Hash → Except String (MerkleTreeProof Hash × Hash)
  | _, 0, proof, hash => .ok (proof, hash)
  | i, n + 1, proof, hash =>
    if t.leafCount.toNat.testBit i then do
      let left := t.context.getD i default
      let proof ← proof.setSiblingHash left (t.log2LeafSize + i)
      proofFrom H t (i + 1) n proof (H.concat left hash)
    else do
      let right ← t.pristineHashes.getHash (t.log2LeafSize + i)
      let proof ← proof.setSiblingHash right (t.log2LeafSize + i)
      proofFrom H t (i + 1) n proof (H.concat hash right)

/-- The proof of the next leaf, which is still pristine. -/
def getNextLeafProof [DecidableEq Hash] (H : Hasher Hash) (debug : Bool)
    (t : BackMerkleTree Hash) : Except String (MerkleTreeProof Hash) :=
  if t.leafCount ≥ t.maxLeaves then
    .error "tree is full"
  else do
    let proof : MerkleTreeProof Hash ← MerkleTreeProof.new t.log2RootSize t.log2LeafSize
    let hash ← t.pristineHashes.getHash t.log2LeafSize
    let (proof, rootHash) ← t.proofFrom H 0 t.depth
      { proof with
        targetAddress := t.leafCount <<< UInt64.ofNat t.log2LeafSize
        targetHash := hash } hash
    let proof := { proof with rootHash := rootHash }
    if debug && !proof.verify H then
      .error "produced invalid proof"
    else
      return proof

/-- A call of `push_back` on an object: the tree it leaves behind, and what it
    returns or throws. -/
def pushBackCall (H : Hasher Hash) (t : BackMerkleTree Hash) (hash : Hash) :
    BackMerkleTree Hash × Except String Unit :=
  match t.pushBack H hash with
  | .ok pushed => (pushed, .ok ())
  | .error message => (t, .error message)

/-- The object after a sequence of calls of `push_back`, thrown or not. -/
def pushBackAll (H : Hasher Hash) (t : BackMerkleTree Hash) (hashes : List Hash) :
    BackMerkleTree Hash :=
  hashes.foldl (fun t hash => (t.pushBackCall H hash).1) t

end BackMerkleTree

end ServerManager
