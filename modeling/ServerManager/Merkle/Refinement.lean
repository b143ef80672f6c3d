import ServerManager.Merkle.Full
import ServerManager.Merkle.Complete

/-!
# The Complete Tree Refines the Padded Full Tree

`complete_merkle_tree` stores, one list a level, the hashes of the nodes that
have some pushed leaf under them. The tree it stands for is the full binary
tree over an infinite row of leaves: the pushed ones, and the pristine leaf
everywhere else. `Represents` says that the stored levels are exactly the
nodes of that tree with a pushed leaf under them, for every level at once.

`bubble_up` only looks at the last stored entry of each level and at what was
added behind it. `redoLevel_eq` is why this is enough: an entry before the last
one has two stored children, and `node_append` is why those did not change.

## Main definitions

* `padded`: The pushed leaves, followed by pristine ones.
* `storedLevel`: The nodes of one height with a pushed leaf under them.
* `Stores`: The stored levels are those of the padded tree.
* `Represents`: They are, and there are no more leaves than the tree has room for.
* `CompleteMerkleTree.pushBackCall`: A call of `push_back` on an object.

## Theorems

* `redoLevel_eq`: One round of `bubble_up` redoes a whole level.
* `redoLevels_eq`: All rounds together redo all levels.
* `Stores.grow`: Leaves added at the end and one pass of `bubble_up`.
* `Represents.pushBack`: A push keeps the representation.
* `Represents.calls`: Any sequence of calls keeps it, full trees included.
* `Stores.getNodeHash`: A node read back is a node of the padded tree.
* `complete_refines_padded`: The refinement, for every tree that can be built.
-/

namespace ServerManager

open FullTree

variable {Hash : Type}

/-- The hash of a pristine leaf: the full tree over the zero words of a leaf. -/
def pristineLeaf (H : Hasher Hash) (log2LeafSize log2WordSize : Nat) : Hash :=
  fullRoot H.concat (log2LeafSize - log2WordSize) fun _ => H.zeroWord log2WordSize

/-- The pushed leaves, followed by pristine ones. -/
def padded (pristine : Hash) (leaves : List Hash) (i : Nat) : Hash :=
  leaves.getD i pristine

/-- The nodes of height `h` of the padded tree that have a pushed leaf under
    them. -/
def storedLevel (H : Hasher Hash) (pristine : Hash) (leaves : List Hash) (h : Nat) : List Hash :=
  (List.range (levelSize leaves.length h)).map (node H.concat (padded pristine leaves) h)

@[simp]
theorem length_storedLevel (H : Hasher Hash) (pristine : Hash) (leaves : List Hash) (h : Nat) :
    (storedLevel H pristine leaves h).length = levelSize leaves.length h := by
  simp [storedLevel]

/-- The leaf level is the list of pushed leaves. -/
theorem storedLevel_zero (H : Hasher Hash) (pristine : Hash) (leaves : List Hash) :
    storedLevel H pristine leaves 0 = leaves := by
  refine List.ext_getElem (by simp) (fun i hi hi' => ?_)
  simp [storedLevel, padded, hi']

/-- Past the stored nodes the padded tree is pristine. -/
theorem node_pristine (H : Hasher Hash) (pristine : Hash) (leaves : List Hash) {h i : Nat}
    (hi : levelSize leaves.length h ≤ i) :
    node H.concat (padded pristine leaves) h i = fullRoot H.concat h fun _ => pristine := by
  refine node_const H.concat (fun j hj => ?_)
  have hpast : ¬ i * 2 ^ h < leaves.length := fun hlt =>
    absurd (lt_levelSize.mpr hlt) (by omega)
  rw [padded, List.getD_eq_getElem?_getD, List.getElem?_eq_none (by omega)]
  rfl

/-- A stored level, extended with the pristine hash of its size, is the whole
    level of the padded tree. -/
theorem storedLevel_getD (H : Hasher Hash) (pristine : Hash) (leaves : List Hash) (h i : Nat) :
    (storedLevel H pristine leaves h).getD i (fullRoot H.concat h fun _ => pristine) =
      node H.concat (padded pristine leaves) h i := by
  by_cases hi : i < levelSize leaves.length h
  · simp [storedLevel, hi]
  · rw [node_pristine H pristine leaves (Nat.le_of_not_lt hi), List.getD_eq_getElem?_getD,
      List.getElem?_eq_none (by rw [length_storedLevel]; omega)]
    rfl

/-- Further leaves change no node that ends before them. -/
theorem node_append (H : Hasher Hash) (pristine : Hash) (leaves more : List Hash)
    {h i : Nat} (hbefore : (i + 1) * 2 ^ h ≤ leaves.length) :
    node H.concat (padded pristine (leaves ++ more)) h i =
      node H.concat (padded pristine leaves) h i := by
  refine node_congr H.concat (fun j _ hj => ?_)
  rw [padded, padded, List.getD_eq_getElem?_getD, List.getD_eq_getElem?_getD,
    List.getElem?_append_left (by omega)]

variable [Inhabited Hash]

/-- Entry `k` of the pristine hashes is the full tree of height `k` over zero
    words. -/
theorem hashesFrom_getD (H : Hasher Hash) (n k : Nat) (hk : k < n) (hash : Hash) :
    (PristineMerkleTree.hashesFrom H n hash).getD k default =
      fullRoot H.concat k fun _ => hash := by
  induction n generalizing k hash with
  | zero => omega
  | succ n ih =>
      cases k with
      | zero => rfl
      | succ k =>
          rw [PristineMerkleTree.hashesFrom, List.getD_cons_succ, ih k (by omega)]
          -- The list goes on from the tree of height one.
          have hone : H.concat hash hash = fullRoot H.concat 1 fun _ => hash := rfl
          rw [hone, fullRoot_const_add, Nat.add_comm]

/-- The pristine hash of size `2 ^ (log2WordSize + k)`. -/
theorem pristine_getD (H : Hasher Hash) {root word k : Nat} (hk : k ≤ root - word) :
    (PristineMerkleTree.build H root word).hashes.getD k default =
      fullRoot H.concat k fun _ => H.zeroWord word :=
  hashesFrom_getD H _ k (Nat.lt_succ_of_le hk) _

/-- Two lists of one length with the same entries are the same. -/
theorem ext_getD {l l' : List Hash} (hlen : l.length = l'.length)
    (hsame : ∀ i, i < l.length → l.getD i default = l'.getD i default) : l = l' := by
  refine List.ext_getElem hlen (fun i hi hi' => ?_)
  have h := hsame i hi
  rwa [List.getD_eq_getElem _ _ hi, List.getD_eq_getElem _ _ hi'] at h

section Redo

variable (H : Hasher Hash) (prev : List Hash)

@[simp]
theorem length_redoEntries (entry n : Nat) (next : List Hash) :
    (redoEntries H prev entry n next).length = next.length := by
  induction n generalizing entry next with
  | zero => rfl
  | succ n ih => rw [redoEntries, ih, List.length_set]

/-- What `redoEntries` leaves at a position: the entries it went through come
    from their two children, the others are as before. -/
theorem redoEntries_getD (entry n : Nat) (next : List Hash) (i : Nat) (hi : i < next.length) :
    (redoEntries H prev entry n next).getD i default =
      if entry ≤ i ∧ i < entry + n then
        H.concat (prev.getD (2 * i) default) (prev.getD (2 * i + 1) default)
      else next.getD i default := by
  induction n generalizing entry next with
  | zero => rw [redoEntries, if_neg (by omega)]
  | succ n ih =>
      rw [redoEntries, ih (entry + 1) _ (by rw [List.length_set]; exact hi)]
      by_cases hlater : entry + 1 ≤ i ∧ i < entry + 1 + n
      · rw [if_pos hlater, if_pos (by omega)]
      · rw [if_neg hlater]
        -- What the later rounds do not touch is the entry set here, or an old one.
        by_cases hentry : entry = i
        · subst hentry
          rw [if_pos (by omega)]
          simp [hi]
        · rw [if_neg (by omega), List.getD_eq_getElem?_getD, List.getElem?_set_ne hentry,
            ← List.getD_eq_getElem?_getD]

end Redo

@[simp]
theorem length_resize (l : List Hash) (n : Nat) : (resize l n).length = n := by
  rw [resize, List.length_append, List.length_take, List.length_replicate]
  omega

/-- Growing a list keeps its entries. -/
theorem resize_getD (l : List Hash) {n i : Nat} (hi : i < l.length) (hn : l.length ≤ n) :
    (resize l n).getD i default = l.getD i default := by
  rw [resize, List.take_of_length_le hn, List.getD_eq_getElem?_getD,
    List.getElem?_append_left hi, ← List.getD_eq_getElem?_getD]

/-- One round of `bubble_up` redoes a whole level, provided that the level did
    not shrink and that all its entries but the last came from their two
    children in the level below. -/
theorem redoLevel_eq (H : Hasher Hash) (pristine : Hash) (prev next : List Hash)
    (hlen : next.length ≤ (prev.length + 1) / 2)
    (hkept : ∀ i, i + 1 < next.length → next.getD i default =
      H.concat (prev.getD (2 * i) pristine) (prev.getD (2 * i + 1) pristine)) :
    redoLevel H pristine prev next =
      (List.range ((prev.length + 1) / 2)).map fun i =>
        H.concat (prev.getD (2 * i) pristine) (prev.getD (2 * i + 1) pristine) := by
  have hsame : ∀ j, j < prev.length → prev.getD j default = prev.getD j pristine := by
    intro j hj
    simp [hj]
  have hfirst : (if next.isEmpty then next.length else next.length - 1) = next.length - 1 := by
    by_cases hempty : next = []
    · simp [hempty]
    · simp [hempty]
  -- The entries with two stored children: the old ones before the last, and
  -- those the loop went through.
  have hsafe : ∀ i, i < prev.length / 2 →
      (redoEntries H prev (next.length - 1) (prev.length / 2 - (next.length - 1))
        (resize next ((prev.length + 1) / 2))).getD i default =
      H.concat (prev.getD (2 * i) pristine) (prev.getD (2 * i + 1) pristine) := by
    intro i hi
    rw [redoEntries_getD H prev _ _ _ i (by rw [length_resize]; omega)]
    by_cases hold : i < next.length - 1
    · rw [if_neg (by omega), resize_getD next (by omega) hlen]
      exact hkept i (by omega)
    · rw [if_pos (by omega), hsame _ (by omega), hsame _ (by omega)]
  simp only [redoLevel, hfirst]
  by_cases hodd : prev.length > 2 * (prev.length / 2)
  · rw [if_pos hodd]
    refine ext_getD (by simp) (fun i hi => ?_)
    rw [List.length_set, length_redoEntries, length_resize] at hi
    by_cases hlast : prev.length / 2 = i
    · -- The odd entry at the end is paired with the pristine hash.
      subst hlast
      have hright : prev[2 * (prev.length / 2) + 1]? = none :=
        List.getElem?_eq_none (by omega)
      have hleft : prev.getLast?.getD default = prev.getD (2 * (prev.length / 2)) pristine := by
        have hat : 2 * (prev.length / 2) = prev.length - 1 := by omega
        rw [hat, ← hsame _ (by omega), List.getLast?_eq_getElem?, List.getD_eq_getElem?_getD]
      simp [hi, hright, hleft]
    · rw [List.getD_eq_getElem?_getD, List.getElem?_set_ne hlast, ← List.getD_eq_getElem?_getD,
        hsafe i (by omega)]
      simp [hi]
  · rw [if_neg hodd]
    refine ext_getD (by simp) (fun i hi => ?_)
    rw [length_redoEntries, length_resize] at hi
    rw [hsafe i (by omega)]
    simp [hi]

/-- A level redone from the new level below it is the new level, whatever
    leaves were added. -/
theorem redoLevel_append (H : Hasher Hash) (pristine : Hash) (leaves more : List Hash)
    (h : Nat) :
    redoLevel H (fullRoot H.concat h fun _ => pristine)
        (storedLevel H pristine (leaves ++ more) h) (storedLevel H pristine leaves (h + 1)) =
      storedLevel H pristine (leaves ++ more) (h + 1) := by
  have hgrown : leaves.length ≤ (leaves ++ more).length := by simp
  have hlen : (storedLevel H pristine leaves (h + 1)).length ≤
      ((storedLevel H pristine (leaves ++ more) h).length + 1) / 2 := by
    rw [length_storedLevel, length_storedLevel, ← levelSize_succ]
    exact levelSize_mono hgrown (h + 1)
  rw [redoLevel_eq H _ _ _ hlen]
  · simp only [storedLevel_getD, ← node_succ]
    rw [length_storedLevel, ← levelSize_succ]
    rfl
  · intro i hi
    rw [length_storedLevel] at hi
    -- The next entry is stored too, so all leaves under this one are old.
    have hbefore : (i + 1) * 2 ^ (h + 1) ≤ leaves.length := Nat.le_of_lt (lt_levelSize.mp hi)
    have hi' : i < levelSize leaves.length (h + 1) := by omega
    rw [storedLevel_getD, storedLevel_getD, ← node_succ H.concat,
      node_append H pristine leaves more hbefore]
    simp [storedLevel, hi']

/-- All rounds of `bubble_up` together: `count` levels, the first one of height
    `h + 1`. -/
theorem redoLevels_eq (H : Hasher Hash) {root leaf word : Nat} (hword : word ≤ leaf)
    (leaves more : List Hash) (count h : Nat) (hcount : leaf + h + count ≤ root) :
    redoLevels H (PristineMerkleTree.build H root word) (leaf + h)
        (storedLevel H (pristineLeaf H leaf word) (leaves ++ more) h)
        ((List.range' (h + 1) count).map (storedLevel H (pristineLeaf H leaf word) leaves)) =
      (List.range' (h + 1) count).map
        (storedLevel H (pristineLeaf H leaf word) (leaves ++ more)) := by
  induction count generalizing h with
  | zero => rfl
  | succ count ih =>
      rw [List.range'_succ, List.map_cons, List.map_cons, redoLevels]
      -- The pristine hash of this size is the tree of height `h` over pristine leaves.
      have hpristine : (PristineMerkleTree.build H root word).hashes.getD
          (leaf + h - (PristineMerkleTree.build H root word).log2WordSize) default =
          fullRoot H.concat h fun _ => pristineLeaf H leaf word := by
        have hheight : leaf + h - word = (leaf - word) + h := by omega
        simp only [PristineMerkleTree.build] at *
        rw [hheight, pristineLeaf, fullRoot_const_add]
        exact pristine_getD H (by omega)
      rw [hpristine, redoLevel_append]
      congr 1
      exact ih (h + 1) (by omega)

/-- Three sizes that the constructor accepts. -/
structure TreeSizes where
  root : Nat
  leaf : Nat
  word : Nat
  wordLe : word ≤ leaf
  leafLe : leaf ≤ root
  rootLt : root < 64

/-- The number of leaves a tree has room for. -/
def TreeSizes.capacity (z : TreeSizes) : Nat := 2 ^ (z.root - z.leaf)

/-- The leaf function of the padded tree. -/
def TreeSizes.row (z : TreeSizes) (H : Hasher Hash) (leaves : List Hash) : Nat → Hash :=
  padded (pristineLeaf H z.leaf z.word) leaves

/-- A node of the tree: its size and its address are in range. -/
def TreeSizes.Inside (z : TreeSizes) (address : UInt64) (log2Size : Int) : Prop :=
  (z.leaf : Int) ≤ log2Size ∧ log2Size ≤ z.root ∧
    address.toNat >>> log2Size.toNat < 2 ^ (z.root - log2Size.toNat)

omit [Inhabited Hash] in
/-- The constructor accepts exactly the sizes of a `TreeSizes`. -/
theorem new_sizes (H : Hasher Hash) {log2RootSize log2LeafSize log2WordSize : Int}
    {t : CompleteMerkleTree Hash}
    (hnew : CompleteMerkleTree.new H log2RootSize log2LeafSize log2WordSize = .ok t) :
    ∃ z : TreeSizes, log2RootSize = z.root ∧ log2LeafSize = z.leaf ∧ log2WordSize = z.word ∧
      t = CompleteMerkleTree.empty H z.root z.leaf z.word := by
  simp only [CompleteMerkleTree.new, PristineMerkleTree.new,
    CompleteMerkleTree.checkLog2Sizes] at hnew
  split at hnew
  · exact absurd hnew (by simp [bind, Except.bind])
  split at hnew
  · exact absurd hnew (by simp [bind, Except.bind])
  split at hnew
  · exact absurd hnew (by simp [bind, Except.bind])
  rename_i hroot hword hle
  by_cases hleaf : log2LeafSize < 0 ∨ log2LeafSize > log2RootSize ∨ log2WordSize > log2LeafSize ∨
      log2RootSize ≥ 64
  · exfalso
    revert hnew
    simp only [bind, Except.bind]
    split_ifs <;> (simp; try omega)
  · have hsizes : t = CompleteMerkleTree.empty H log2RootSize.toNat log2LeafSize.toNat
        log2WordSize.toNat := by
      revert hnew
      simp only [bind, Except.bind]
      split_ifs <;> first | omega | simp [pure, Except.pure, eq_comm]
    refine ⟨⟨log2RootSize.toNat, log2LeafSize.toNat, log2WordSize.toNat, ?_, ?_, ?_⟩,
      ?_, ?_, ?_, hsizes⟩ <;> first | omega | (dsimp only; omega)

/-- The tree stores exactly the nodes of the padded tree that have one of the
    leaves under them. -/
structure Stores (H : Hasher Hash) (z : TreeSizes) (t : CompleteMerkleTree Hash)
    (leaves : List Hash) : Prop where
  root : t.log2RootSize = z.root
  leaf : t.log2LeafSize = z.leaf
  pristine : t.pristine = PristineMerkleTree.build H z.root z.word
  levels : t.levels = (List.range' 0 (z.root - z.leaf + 1)).map
    (storedLevel H (pristineLeaf H z.leaf z.word) leaves)

/-- The tree stores exactly the nodes of the padded tree that have a pushed
    leaf under them. -/
structure Represents (H : Hasher Hash) (z : TreeSizes) (t : CompleteMerkleTree Hash)
    (leaves : List Hash) : Prop where
  root : t.log2RootSize = z.root
  leaf : t.log2LeafSize = z.leaf
  pristine : t.pristine = PristineMerkleTree.build H z.root z.word
  levels : t.levels = (List.range' 0 (z.root - z.leaf + 1)).map
    (storedLevel H (pristineLeaf H z.leaf z.word) leaves)
  room : leaves.length ≤ z.capacity

omit [Inhabited Hash] in
/-- The new tree stands for the row without any pushed leaf. -/
theorem represents_empty (H : Hasher Hash) (z : TreeSizes) :
    Represents H z (CompleteMerkleTree.empty H z.root z.leaf z.word) [] := by
  refine ⟨rfl, rfl, rfl, ?_, Nat.zero_le _⟩
  have hnone : storedLevel H (pristineLeaf H z.leaf z.word) [] = fun _ => [] := by
    funext h
    simp [storedLevel]
  rw [hnone, List.map_const']
  simp [CompleteMerkleTree.empty]

namespace Stores

variable {H : Hasher Hash} {z : TreeSizes} {t : CompleteMerkleTree Hash} {leaves : List Hash}

omit [Inhabited Hash] in
theorem leaves_eq (hrep : Stores H z t leaves) : t.levels.headD [] = leaves := by
  rw [hrep.levels, List.range'_succ, List.map_cons, List.headD_cons, storedLevel_zero]

omit [Inhabited Hash] in
/-- The number of leaves is what `size` says. -/
theorem size_eq (hrep : Stores H z t leaves) : t.size = leaves.length := by
  rw [CompleteMerkleTree.size, hrep.leaves_eq]

/-- `bubble_up` after leaves were added to the leaf level. -/
theorem grow (hrep : Stores H z t leaves) (more : List Hash) :
    Stores H z { t with
      levels := (leaves ++ more) ::
        redoLevels H t.pristine t.log2LeafSize (leaves ++ more) t.levels.tail }
      (leaves ++ more) := by
  have htail : t.levels.tail = (List.range' 1 (z.root - z.leaf)).map
      (storedLevel H (pristineLeaf H z.leaf z.word) leaves) := by
    rw [hrep.levels, List.range'_succ, List.map_cons, List.tail_cons]
  have hleaves := storedLevel_zero H (pristineLeaf H z.leaf z.word) (leaves ++ more)
  have hredo := redoLevels_eq H z.wordLe leaves more (z.root - z.leaf) 0
    (show z.leaf + 0 + (z.root - z.leaf) ≤ z.root by have := z.leafLe; omega)
  rw [hleaves, ← htail, Nat.add_zero] at hredo
  refine ⟨hrep.root, hrep.leaf, hrep.pristine, ?_⟩
  dsimp only
  rw [hrep.leaf, hrep.pristine, hredo, List.range'_succ, List.map_cons, hleaves]

omit [Inhabited Hash] in
/-- The level of height `k` is that of the padded tree. -/
theorem level_eq (hrep : Stores H z t leaves) {k : Nat} (hk : k ≤ z.root - z.leaf) :
    t.levels.getD k [] = storedLevel H (pristineLeaf H z.leaf z.word) leaves k := by
  rw [hrep.levels, List.getD_eq_getElem?_getD, List.getElem?_map,
    List.getElem?_range' (by omega)]
  simp

omit [Inhabited Hash] in
/-- `get_level` gives the level for the sizes of the tree, and throws for all
    others. -/
theorem getLevel (hrep : Stores H z t leaves) (log2Size : Int) :
    t.getLevel log2Size =
      if (z.leaf : Int) ≤ log2Size ∧ log2Size ≤ z.root then
        .ok (storedLevel H (pristineLeaf H z.leaf z.word) leaves (log2Size.toNat - z.leaf))
      else .error "log2_size is out of bounds" := by
  rw [CompleteMerkleTree.getLevel, hrep.root, hrep.leaf]
  by_cases hsize : (z.leaf : Int) ≤ log2Size ∧ log2Size ≤ z.root
  · rw [if_pos hsize, if_neg (by omega), hrep.level_eq (by omega)]
  · rw [if_neg hsize, if_pos (by omega)]

/-- The pristine hash of a size of the tree. -/
theorem pristine_getHash (hrep : Stores H z t leaves) {log2Size : Int}
    (hleaf : (z.leaf : Int) ≤ log2Size) (hroot : log2Size ≤ z.root) :
    t.pristine.getHash log2Size =
      .ok (fullRoot H.concat (log2Size.toNat - z.leaf) fun _ => pristineLeaf H z.leaf z.word) := by
  have hword := z.wordLe
  rw [hrep.pristine, PristineMerkleTree.getHash]
  have hin : ¬ (log2Size < (PristineMerkleTree.build H z.root z.word).log2WordSize ∨
      log2Size > (PristineMerkleTree.build H z.root z.word).log2RootSize) := by
    simp only [PristineMerkleTree.build]
    omega
  rw [if_neg hin, pristineLeaf, fullRoot_const_add]
  have hheight : log2Size.toNat - (PristineMerkleTree.build H z.root z.word).log2WordSize =
      z.leaf - z.word + (log2Size.toNat - z.leaf) := by
    simp only [PristineMerkleTree.build]
    omega
  rw [hheight, pristine_getD H (by omega)]

/-- A node read back is a node of the padded tree. -/
theorem getNodeHash (hrep : Stores H z t leaves) {address : UInt64} {log2Size : Int}
    (hin : z.Inside address log2Size) :
    t.getNodeHash address log2Size =
      .ok (node H.concat (z.row H leaves) (log2Size.toNat - z.leaf)
        (address.toNat >>> log2Size.toNat)) := by
  rcases hin with ⟨hleaf, hroot, haddress⟩
  rw [CompleteMerkleTree.getNodeHash, hrep.getLevel, if_pos ⟨hleaf, hroot⟩, hrep.root]
  simp only [bind, Except.bind, pure, Except.pure]
  rw [if_neg (Nat.not_le_of_lt haddress)]
  have hnode := storedLevel_getD H (pristineLeaf H z.leaf z.word) leaves
    (log2Size.toNat - z.leaf) (address.toNat >>> log2Size.toNat)
  -- Either the node is stored, or it is past the stored ones and pristine.
  split
  · rename_i hstored
    rw [TreeSizes.row, ← hnode, List.getD_eq_getElem _ _ hstored,
      List.getD_eq_getElem _ _ hstored]
  · rename_i hpast
    rw [hrep.pristine_getHash hleaf hroot, TreeSizes.row, ← hnode,
      List.getD_eq_getElem?_getD, List.getElem?_eq_none (Nat.le_of_not_lt hpast)]
    rfl

/-- Any other size or address is refused. -/
theorem getNodeHash_outside (hrep : Stores H z t leaves) {address : UInt64} {log2Size : Int}
    (hout : ¬ z.Inside address log2Size) :
    t.getNodeHash address log2Size = .error "log2_size is out of bounds" := by
  rw [CompleteMerkleTree.getNodeHash, hrep.getLevel, hrep.root]
  by_cases hsize : (z.leaf : Int) ≤ log2Size ∧ log2Size ≤ z.root
  · rw [if_pos hsize]
    simp only [bind, Except.bind]
    exact if_pos (Nat.le_of_not_lt fun haddress => hout ⟨hsize.1, hsize.2, haddress⟩)
  · rw [if_neg hsize]
    rfl

end Stores

namespace Represents

variable {H : Hasher Hash} {z : TreeSizes} {t : CompleteMerkleTree Hash} {leaves : List Hash}

omit [Inhabited Hash] in
theorem stores (hrep : Represents H z t leaves) : Stores H z t leaves :=
  ⟨hrep.root, hrep.leaf, hrep.pristine, hrep.levels⟩

/-- A push on a tree with room appends the leaf. -/
theorem pushBack (hrep : Represents H z t leaves) (hash : Hash)
    (hroom : leaves.length < z.capacity) :
    ∃ t', t.pushBack H hash = .ok t' ∧ Represents H z t' (leaves ++ [hash]) := by
  have hnot : ¬ leaves.length ≥ 2 ^ (t.log2RootSize - t.log2LeafSize) := by
    rw [hrep.root, hrep.leaf]
    exact Nat.not_le_of_lt hroom
  have hpush : t.pushBack H hash = .ok { t with
      levels := (leaves ++ [hash]) ::
        redoLevels H t.pristine t.log2LeafSize (leaves ++ [hash]) t.levels.tail } := by
    simp only [CompleteMerkleTree.pushBack, hrep.stores.leaves_eq]
    exact if_neg hnot
  have hgrown := hrep.stores.grow [hash]
  refine ⟨_, hpush, hgrown.root, hgrown.leaf, hgrown.pristine, hgrown.levels, ?_⟩
  rw [List.length_append, List.length_singleton]
  exact hroom

/-- A push on a full tree throws. -/
theorem pushBack_full (hrep : Represents H z t leaves) (hash : Hash)
    (hfull : leaves.length = z.capacity) : t.pushBack H hash = .error "tree is full" := by
  rw [CompleteMerkleTree.pushBack, hrep.stores.leaves_eq, hrep.root, hrep.leaf]
  exact if_pos (Nat.le_of_eq hfull.symm)

end Represents

/-- A call of `push_back` on an object: the tree it leaves behind, and what it
    returns or throws. The check for room comes before the leaf level is
    touched, so a call that throws leaves the object as it was. -/
def CompleteMerkleTree.pushBackCall (H : Hasher Hash) (t : CompleteMerkleTree Hash)
    (hash : Hash) : CompleteMerkleTree Hash × Except String Unit :=
  match t.pushBack H hash with
  | .ok pushed => (pushed, .ok ())
  | .error message => (t, .error message)

/-- The object after a sequence of calls of `push_back`, thrown or not. -/
def CompleteMerkleTree.pushBackAll (H : Hasher Hash) (t : CompleteMerkleTree Hash)
    (hashes : List Hash) : CompleteMerkleTree Hash :=
  hashes.foldl (fun t hash => (t.pushBackCall H hash).1) t

namespace Represents

variable {H : Hasher Hash} {z : TreeSizes} {t : CompleteMerkleTree Hash} {leaves : List Hash}

/-- One call on a tree with room. -/
theorem call (hrep : Represents H z t leaves) (hash : Hash) (hroom : leaves.length < z.capacity) :
    (t.pushBackCall H hash).2 = .ok () ∧
      Represents H z (t.pushBackCall H hash).1 (leaves ++ [hash]) := by
  rcases hrep.pushBack hash hroom with ⟨t', hpush, hrep'⟩
  rw [CompleteMerkleTree.pushBackCall, hpush]
  exact ⟨rfl, hrep'⟩

/-- One call on a full tree. -/
theorem call_full (hrep : Represents H z t leaves) (hash : Hash)
    (hfull : leaves.length = z.capacity) :
    t.pushBackCall H hash = (t, .error "tree is full") := by
  rw [CompleteMerkleTree.pushBackCall, hrep.pushBack_full hash hfull]

/-- Any sequence of calls: the tree holds the leaves there was room for. -/
theorem calls (hrep : Represents H z t leaves) (hashes : List Hash) :
    Represents H z (t.pushBackAll H hashes) ((leaves ++ hashes).take z.capacity) := by
  induction hashes generalizing t leaves with
  | nil =>
      rw [List.append_nil, List.take_of_length_le hrep.room]
      exact hrep
  | cons hash hashes ih =>
      rw [CompleteMerkleTree.pushBackAll, List.foldl_cons]
      rcases Nat.lt_or_eq_of_le hrep.room with hroom | hfull
      · have hstep := ih (hrep.call hash hroom).2
        rw [List.append_assoc] at hstep
        exact hstep
      · -- A full tree is left as it is by this call and by all later ones.
        have hstep := ih (hrep.call_full hash hfull ▸ hrep :
          Represents H z (t.pushBackCall H hash).1 leaves)
        rw [List.take_append_of_le_length (Nat.le_of_eq hfull.symm)] at hstep ⊢
        exact hstep

end Represents

/-- A tree built by `push_back` calls stands for the row of the leaves that
    were pushed while there was room. -/
theorem represents_pushed (H : Hasher Hash) (z : TreeSizes) (pushed : List Hash) :
    Represents H z ((CompleteMerkleTree.empty H z.root z.leaf z.word).pushBackAll H pushed)
      (pushed.take z.capacity) :=
  (represents_empty H z).calls pushed

/-- `complete_merkle_tree` refines the padded full binary tree, after any
    sequence of `push_back` calls: the number of hashes stored for each size,
    the hash of every node, the refusal of everything else, and what a further
    call does. -/
theorem complete_refines_padded (H : Hasher Hash) (log2RootSize log2LeafSize log2WordSize : Int)
    (fresh : CompleteMerkleTree Hash)
    (hnew : CompleteMerkleTree.new H log2RootSize log2LeafSize log2WordSize = .ok fresh)
    (pushed : List Hash) :
    let capacity := 2 ^ (log2RootSize - log2LeafSize).toNat
    let leaves := pushed.take capacity
    let row := padded (fullRoot H.concat (log2LeafSize - log2WordSize).toNat fun _ =>
      H.zeroWord log2WordSize.toNat) leaves
    let t := fresh.pushBackAll H pushed
    (∀ log2Size, log2LeafSize ≤ log2Size → log2Size ≤ log2RootSize →
      ∃ level, t.getLevel log2Size = .ok level ∧
        level.length = levelSize leaves.length (log2Size - log2LeafSize).toNat) ∧
    (∀ (log2Size : Int) (address : UInt64), log2LeafSize ≤ log2Size → log2Size ≤ log2RootSize →
      address.toNat >>> log2Size.toNat < 2 ^ (log2RootSize - log2Size).toNat →
      t.getNodeHash address log2Size = .ok
        (fullRoot H.concat (log2Size - log2LeafSize).toNat fun j =>
          row ((address.toNat >>> log2Size.toNat) * 2 ^ (log2Size - log2LeafSize).toNat + j))) ∧
    (∀ (log2Size : Int) (address : UInt64), ¬ (log2LeafSize ≤ log2Size ∧
      log2Size ≤ log2RootSize ∧
      address.toNat >>> log2Size.toNat < 2 ^ (log2RootSize - log2Size).toNat) →
      t.getNodeHash address log2Size = .error "log2_size is out of bounds") ∧
    (∀ hash, leaves.length < capacity → (t.pushBackCall H hash).2 = .ok () ∧
      (t.pushBackCall H hash).1.getLevel log2LeafSize = .ok (leaves ++ [hash])) ∧
    (∀ hash, leaves.length = capacity → t.pushBackCall H hash = (t, .error "tree is full")) := by
  rcases new_sizes H hnew with ⟨z, rfl, rfl, rfl, rfl⟩
  have hcapacity : ((z.root : Int) - z.leaf).toNat = z.root - z.leaf := by omega
  have hword : ((z.leaf : Int) - z.word).toNat = z.leaf - z.word := by omega
  simp only [hcapacity, hword, Int.toNat_natCast]
  have hrep := represents_pushed H z pushed
  refine ⟨fun log2Size hleaf hroot => ?_, fun log2Size address hleaf hroot haddress => ?_,
    fun log2Size address hout => ?_, fun hash hroom => ?_, fun hash hfull => ?_⟩
  · have hheight : (log2Size - z.leaf).toNat = log2Size.toNat - z.leaf := by omega
    rw [hrep.stores.getLevel, if_pos ⟨hleaf, hroot⟩, hheight]
    exact ⟨_, rfl, length_storedLevel H _ _ _⟩
  · have hheight : (log2Size - z.leaf).toNat = log2Size.toNat - z.leaf := by omega
    have habove : ((z.root : Int) - log2Size).toNat = z.root - log2Size.toNat := by omega
    rw [hheight]
    exact hrep.stores.getNodeHash ⟨hleaf, hroot, habove ▸ haddress⟩
  · refine hrep.stores.getNodeHash_outside (fun hin => hout ⟨hin.1, hin.2.1, ?_⟩)
    have habove : ((z.root : Int) - log2Size).toNat = z.root - log2Size.toNat := by
      have hle := hin.2.1
      have hleaf := hin.1
      omega
    rw [habove]
    exact hin.2.2
  · rcases hrep.call hash hroom with ⟨hok, hrep'⟩
    refine ⟨hok, ?_⟩
    rw [hrep'.stores.getLevel, if_pos ⟨by omega, by have := z.leafLe; omega⟩, Int.toNat_natCast,
      Nat.sub_self, storedLevel_zero]
    rfl
  · exact hrep.call_full hash hfull

/-- A pairwise hash on numbers that tells left from right. -/
def sampleHasher : Hasher Nat where
  concat left right := 2 * left + 3 * right + 1
  zeroWord size := size

theorem complete_refines_padded_sample :
    ∃ fresh, CompleteMerkleTree.new sampleHasher 4 2 1 = .ok fresh ∧
      (fresh.pushBackAll sampleHasher [7, 8, 9]).getNodeHash 8 3 =
        .ok (sampleHasher.concat 9 (sampleHasher.concat 1 1)) := by
  refine ⟨_, rfl, ?_⟩
  have hnode := (complete_refines_padded sampleHasher 4 2 1 _ rfl [7, 8, 9]).2.1 3 8
    (by decide) (by decide) (by decide)
  exact hnode

end ServerManager
