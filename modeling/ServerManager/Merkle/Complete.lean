import ServerManager.Merkle.Proof

/-!
# Complete Merkle Trees

`pristine_merkle_tree` and `complete_merkle_tree`: a tree over a row of leaf
hashes flushed to the left, every other leaf being pristine. Only hashes of
nodes with some non-pristine leaf below them are stored, one list a level, and
`bubbleUp` brings the levels above the leaves up to date after a push.

The source keeps the levels in a vector indexed from the root down. Here the
list of levels starts at the leaves, which is the order in which `bubble_up`
visits them; `getLevel` hides the difference.

## Main definitions

* `PristineMerkleTree`: The hashes of the pristine subtrees of every size.
* `CompleteMerkleTree`: The stored levels.
* `redoLevel`: One level recomputed from the level below it.
* `CompleteMerkleTree.new`, `ofLeaves`: The two constructors.
* `CompleteMerkleTree.pushBack`, `getNodeHash`, `getProof`: The operations.
-/

namespace ServerManager

variable {Hash : Type} [Inhabited Hash]

/-- Hashes of pristine subtrees, from the word size up to the root size. -/
structure PristineMerkleTree (Hash : Type) where
  log2RootSize : Nat
  log2WordSize : Nat
  hashes : List Hash

namespace PristineMerkleTree

/-- The hash of the word and of each larger subtree of zeros, `n` levels up. -/
def hashesFrom (H : Hasher Hash) : Nat → Hash → List Hash
  | 0, _ => []
  | n + 1, hash => hash :: hashesFrom H n (H.concat hash hash)

/-- The hashes, for sizes that passed the checks. -/
def build (H : Hasher Hash) (log2RootSize log2WordSize : Nat) : PristineMerkleTree Hash :=
  { log2RootSize := log2RootSize
    log2WordSize := log2WordSize
    hashes := hashesFrom H (log2RootSize - log2WordSize + 1) (H.zeroWord log2WordSize) }

def new (H : Hasher Hash) (log2RootSize log2WordSize : Int) :
    Except String (PristineMerkleTree Hash) :=
  if log2RootSize < 0 then
    .error "log2_root_size is negative"
  else if log2WordSize < 0 then
    .error "log2_word_size is negative"
  else if log2WordSize > log2RootSize then
    .error "log2_word_size is greater than log2_root_size"
  else
    .ok (build H log2RootSize.toNat log2WordSize.toNat)

def getHash (t : PristineMerkleTree Hash) (log2Size : Int) : Except String Hash :=
  if log2Size < t.log2WordSize ∨ log2Size > t.log2RootSize then
    .error "log2_size is out of range"
  else
    .ok (t.hashes.getD (log2Size.toNat - t.log2WordSize) default)

end PristineMerkleTree

/-- A tree with non-pristine leaves flushed left. `levels` starts at the
    leaves. -/
structure CompleteMerkleTree (Hash : Type) where
  log2RootSize : Nat
  log2LeafSize : Nat
  pristine : PristineMerkleTree Hash
  levels : List (List Hash)

/-- `std::vector::resize`: cut or pad with value-initialised entries. -/
def resize (l : List Hash) (n : Nat) : List Hash :=
  l.take n ++ List.replicate (n - l.length) default

/-- The entries `entry, …, entry + n - 1` of a level, each from its two
    children in the level below. -/
def redoEntries (H : Hasher Hash) (prev : List Hash) : Nat → Nat → List Hash → List Hash
  | _, 0, next => next
  | entry, n + 1, next =>
    redoEntries H prev (entry + 1) n
      (next.set entry
        (H.concat (prev.getD (2 * entry) default) (prev.getD (2 * entry + 1) default)))

/-- One round of `bubble_up`: `next` recomputed from the level below it. The
    last stored entry is redone because its right child may have been pristine,
    and an odd entry at the end is paired with the pristine hash. -/
def redoLevel (H : Hasher Hash) (pristine : Hash) (prev next : List Hash) : List Hash :=
  let firstEntry := if next.isEmpty then next.length else next.length - 1
  let resized := resize next ((prev.length + 1) / 2)
  let lastSafeEntry := prev.length / 2
  let filled := redoEntries H prev firstEntry (lastSafeEntry - firstEntry) resized
  if prev.length > 2 * lastSafeEntry then
    filled.set lastSafeEntry (H.concat (prev.getLast?.getD default) pristine)
  else
    filled

/-- The levels above `prev`, each redone from the one below. `log2Size` is the
    size of the nodes of `prev`. -/
def redoLevels (H : Hasher Hash) (pristine : PristineMerkleTree Hash) :
    Nat → List Hash → List (List Hash) → List (List Hash)
  | _, _, [] => []
  | log2Size, prev, next :: rest =>
    let redone :=
      redoLevel H (pristine.hashes.getD (log2Size - pristine.log2WordSize) default) prev next
    redone :: redoLevels H pristine (log2Size + 1) redone rest

namespace CompleteMerkleTree

/-- The checks of the constructor on the three sizes. -/
def checkLog2Sizes (log2RootSize log2LeafSize log2WordSize : Int) : Except String Unit :=
  if log2RootSize < 0 then
    .error "log2_root_size is negative"
  else if log2LeafSize < 0 then
    .error "log2_leaf_size is negative"
  else if log2WordSize < 0 then
    .error "log2_word_size is negative"
  else if log2LeafSize > log2RootSize then
    .error "log2_leaf_size is greater than log2_root_size"
  else if log2WordSize > log2LeafSize then
    .error "log2_word_size is greater than log2_word_size"
  else if log2RootSize ≥ 64 then
    .error "tree is too large for address type"
  else
    .ok ()

/-- The tree without any leaf, for sizes that passed the checks. -/
def empty (H : Hasher Hash) (log2RootSize log2LeafSize log2WordSize : Nat) :
    CompleteMerkleTree Hash :=
  { log2RootSize := log2RootSize
    log2LeafSize := log2LeafSize
    pristine := PristineMerkleTree.build H log2RootSize log2WordSize
    levels := List.replicate (log2RootSize - log2LeafSize + 1) [] }

/-- The constructor. The pristine hashes are built, with checks of their own,
    before the sizes are checked. -/
def new (H : Hasher Hash) (log2RootSize log2LeafSize log2WordSize : Int) :
    Except String (CompleteMerkleTree Hash) := do
  let _ ← PristineMerkleTree.new H log2RootSize log2WordSize
  checkLog2Sizes log2RootSize log2LeafSize log2WordSize
  return empty H log2RootSize.toNat log2LeafSize.toNat log2WordSize.toNat

/-- The constructor from leaves flushed left: they become the leaf level as
    they are, and one `bubble_up` fills the levels above, all of them empty. -/
def ofLeaves (H : Hasher Hash) (log2RootSize log2LeafSize log2WordSize : Int)
    (leaves : List Hash) : Except String (CompleteMerkleTree Hash) := do
  let t ← new H log2RootSize log2LeafSize log2WordSize
  return { t with
    levels := leaves :: redoLevels H t.pristine t.log2LeafSize leaves t.levels.tail }

/-- The stored hashes of the nodes of size `2 ^ log2Size`. -/
def getLevel (t : CompleteMerkleTree Hash) (log2Size : Int) : Except String (List Hash) :=
  if log2Size < t.log2LeafSize ∨ log2Size > t.log2RootSize then
    .error "log2_size is out of bounds"
  else
    .ok (t.levels.getD (log2Size.toNat - t.log2LeafSize) [])

/-- The number of leaves pushed. -/
def size (t : CompleteMerkleTree Hash) : Nat := (t.levels.headD []).length

/-- The hash of the node of size `2 ^ log2Size` at an address. -/
def getNodeHash (t : CompleteMerkleTree Hash) (address : UInt64) (log2Size : Int) :
    Except String Hash := do
  let level ← t.getLevel log2Size
  let entry := address.toNat >>> log2Size.toNat
  if entry ≥ 2 ^ (t.log2RootSize - log2Size.toNat) then
    .error "log2_size is out of bounds"
  else if entry < level.length then
    return level.getD entry default
  else
    t.pristine.getHash log2Size

def getRootHash (t : CompleteMerkleTree Hash) : Except String Hash :=
  t.getNodeHash 0 t.log2RootSize

/-- The siblings of sizes `log2Size` and up on the path from a node to the
    root, with the one next to the root first. -/
def siblingsFrom (t : CompleteMerkleTree Hash) (address : UInt64) :
    (log2Size n : Nat) → Except String { l : List Hash // l.length = n }
  | _, 0 => .ok ⟨[], rfl⟩
  | log2Size, n + 1 => do
    let sibling ← t.getNodeHash (address ^^^ UInt64.ofNat (2 ^ log2Size)) log2Size
    let above ← t.siblingsFrom address (log2Size + 1) n
    return ⟨above.1 ++ [sibling], by rw [List.length_append, above.2]; rfl⟩

/-- The proof of the node of size `2 ^ log2Size` at an address. -/
def getProof (t : CompleteMerkleTree Hash) (address : UInt64) (log2Size : Int) :
    Except String (MerkleTreeProof Hash) := do
  if log2Size < t.log2LeafSize ∨ log2Size > t.log2RootSize then
    .error "log2_size is out of bounds"
  let alignedAddress := UInt64.ofNat ((address.toNat >>> log2Size.toNat) <<< log2Size.toNat)
  if address ≠ alignedAddress then
    .error "address is misaligned"
  let proof : MerkleTreeProof Hash ← MerkleTreeProof.new t.log2RootSize log2Size
  let rootHash ← t.getRootHash
  let targetHash ← t.getNodeHash address log2Size
  let siblings ← t.siblingsFrom address proof.log2TargetSize
    (proof.log2RootSize - proof.log2TargetSize)
  return { proof with
    rootHash := rootHash
    targetAddress := address
    targetHash := targetHash
    siblingHashes := siblings.1
    siblingsLength := siblings.2 }

/-- Append a leaf, unless the tree is full. -/
def pushBack (H : Hasher Hash) (t : CompleteMerkleTree Hash) (hash : Hash) :
    Except String (CompleteMerkleTree Hash) :=
  let leaves := t.levels.headD []
  if leaves.length ≥ 2 ^ (t.log2RootSize - t.log2LeafSize) then
    .error "tree is full"
  else
    let pushed := leaves ++ [hash]
    .ok { t with
      levels := pushed :: redoLevels H t.pristine t.log2LeafSize pushed t.levels.tail }

end CompleteMerkleTree

end ServerManager
