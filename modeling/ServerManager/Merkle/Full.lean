import Mathlib

/-!
# Full Binary Trees of Hashes

The mathematical tree that an incremental Merkle tree stands for: an infinite
row of leaves, given as a function of their position, and a way to combine two
hashes. `fullRoot` is the root of the full binary tree over the first `2 ^ h`
leaves, by halving the row. `node` is the same tree read from the bottom: the
`i`-th node of height `h` stands over the leaves from `i * 2 ^ h` on.

Nothing here fixes what a hash is. The two descriptions are connected by
`node_succ`, which is all that a level-by-level construction needs, and
`combine_sibling` is what a verifier that climbs towards the root needs.

## Main definitions

* `fullRoot`: The root of the full tree over a row of leaves.
* `node`: A node of the tree over an infinite row, by height and position.
* `levelSize`: How many nodes of a height stand over the first `n` leaves.
* `Carried`: The carry of an increment has passed the bits below a height.

## Theorems

* `node_succ`: A node is the combination of the two nodes under it.
* `node_congr`: A node depends on the leaves under it only.
* `fullRoot_const_add`: A constant tree of constant trees.
* `levelSize_succ`: A level has half as many nodes as the one below, rounded up.
* `combine_sibling`: A node and its sibling make the node above them.
* `carry_below`, `carry_at`, `carry_above`: The bits after an increment.
-/

namespace FullTree

variable {Hash : Type} (concat : Hash → Hash → Hash)

/-- The root of the full binary tree over the leaves `0, …, 2 ^ h - 1`. -/
def fullRoot : Nat → (Nat → Hash) → Hash
  | 0, leaf => leaf 0
  | h + 1, leaf => concat (fullRoot h leaf) (fullRoot h fun j => leaf (2 ^ h + j))

/-- The `i`-th node of height `h`: the full tree over the leaves under it. -/
def node (leaf : Nat → Hash) (h i : Nat) : Hash :=
  fullRoot concat h fun j => leaf (i * 2 ^ h + j)

/-- The root depends on the leaves of the tree only. -/
theorem fullRoot_congr (h : Nat) {leaf leaf' : Nat → Hash}
    (hsame : ∀ j, j < 2 ^ h → leaf j = leaf' j) :
    fullRoot concat h leaf = fullRoot concat h leaf' := by
  induction h generalizing leaf leaf' with
  | zero => exact hsame 0 (by simp)
  | succ h ih =>
      -- The two halves are the leaves below `2 ^ h` and those from there on.
      have hleft : fullRoot concat h leaf = fullRoot concat h leaf' :=
        ih (fun j hj => hsame j (by rw [Nat.pow_succ]; omega))
      have hright : (fullRoot concat h fun j => leaf (2 ^ h + j)) =
          fullRoot concat h fun j => leaf' (2 ^ h + j) :=
        ih (fun j hj => hsame (2 ^ h + j) (by rw [Nat.pow_succ]; omega))
      rw [fullRoot, fullRoot, hleft, hright]

@[simp]
theorem node_zero (leaf : Nat → Hash) (i : Nat) : node concat leaf 0 i = leaf i := by
  simp [node, fullRoot]

/-- A node is the combination of the two nodes under it. -/
theorem node_succ (leaf : Nat → Hash) (h i : Nat) :
    node concat leaf (h + 1) i =
      concat (node concat leaf h (2 * i)) (node concat leaf h (2 * i + 1)) := by
  simp only [node, fullRoot]
  have hleft : i * 2 ^ (h + 1) = 2 * i * 2 ^ h := by rw [Nat.pow_succ]; ring
  have hright : ∀ j, i * 2 ^ (h + 1) + (2 ^ h + j) = (2 * i + 1) * 2 ^ h + j := by
    intro j
    rw [hleft]
    ring
  simp only [hright]
  rw [hleft]

/-- A node depends on the leaves under it only. -/
theorem node_congr {leaf leaf' : Nat → Hash} {h i : Nat}
    (hsame : ∀ j, i * 2 ^ h ≤ j → j < (i + 1) * 2 ^ h → leaf j = leaf' j) :
    node concat leaf h i = node concat leaf' h i := by
  refine fullRoot_congr concat h (fun j hj => hsame _ (Nat.le_add_right _ _) ?_)
  rw [Nat.add_mul, Nat.one_mul]
  omega

/-- A node over leaves that are all the same is the constant tree. -/
theorem node_const {leaf : Nat → Hash} {x : Hash} {h i : Nat}
    (hsame : ∀ j, i * 2 ^ h ≤ j → leaf j = x) :
    node concat leaf h i = fullRoot concat h fun _ => x :=
  fullRoot_congr concat h (fun _ _ => hsame _ (Nat.le_add_right _ _))

/-- Trees of height `h` over constant trees of height `k` are constant trees. -/
theorem fullRoot_const_add (x : Hash) (k h : Nat) :
    (fullRoot concat h fun _ => fullRoot concat k fun _ => x) =
      fullRoot concat (k + h) fun _ => x := by
  induction h with
  | zero => rfl
  | succ h ih => rw [fullRoot, ih, ← Nat.add_assoc, fullRoot]

/-- How many nodes of height `h` have one of the first `n` leaves under them. -/
def levelSize (n h : Nat) : Nat := (n + 2 ^ h - 1) / 2 ^ h

@[simp]
theorem levelSize_zero (n : Nat) : levelSize n 0 = n := by simp [levelSize]

@[simp]
theorem levelSize_no_leaf (h : Nat) : levelSize 0 h = 0 := by
  rw [levelSize, Nat.zero_add]
  exact Nat.div_eq_of_lt (by have := Nat.two_pow_pos h; omega)

/-- A node is counted exactly when its first leaf is one of the `n`. -/
theorem lt_levelSize {n h i : Nat} : i < levelSize n h ↔ i * 2 ^ h < n := by
  have hpos := Nat.two_pow_pos h
  rw [levelSize, ← Nat.succ_le_iff, Nat.le_div_iff_mul_le hpos, Nat.succ_mul]
  omega

/-- A level has half as many nodes as the one below it, rounded up. -/
theorem levelSize_succ (n h : Nat) : levelSize n (h + 1) = (levelSize n h + 1) / 2 := by
  refine Nat.le_antisymm (Nat.le_of_not_lt fun hlt => ?_) (Nat.le_of_not_lt fun hlt => ?_)
  · -- The node just past the halved count would have a left child below it.
    have hlast := lt_levelSize.mp hlt
    rw [Nat.pow_succ, Nat.mul_comm (2 ^ h), ← Nat.mul_assoc] at hlast
    have := lt_levelSize.mpr hlast
    omega
  · have hleft : levelSize n (h + 1) * 2 < levelSize n h := by omega
    have hlast := lt_levelSize.mp hleft
    rw [Nat.mul_assoc, Nat.mul_comm 2, ← Nat.pow_succ] at hlast
    exact absurd (lt_levelSize.mpr hlast) (Nat.lt_irrefl _)

theorem levelSize_mono {n m : Nat} (hle : n ≤ m) (h : Nat) : levelSize n h ≤ levelSize m h :=
  Nat.div_le_div_right (by omega)

/-- A node and its sibling make the node above them, the bit of the position
    telling which of the two is on the right. -/
theorem combine_sibling (leaf : Nat → Hash) (h i : Nat) :
    (if i.testBit 0 then concat (node concat leaf h (i ^^^ 1)) (node concat leaf h i)
      else concat (node concat leaf h i) (node concat leaf h (i ^^^ 1))) =
      node concat leaf (h + 1) (i / 2) := by
  rw [node_succ, Nat.testBit_zero]
  rcases Nat.mod_two_eq_zero_or_one i with heven | hodd
  · have hleft : 2 * (i / 2) = i := by omega
    have hsibling : i ^^^ 1 = i + 1 := by
      rw [Nat.xor_one_of_even (Nat.even_iff.mpr heven)]
    rw [hleft, hsibling]
    simp [heven]
  · have hright : 2 * (i / 2) + 1 = i := by omega
    have hsibling : i ^^^ 1 = 2 * (i / 2) := by
      rw [Nat.xor_one_of_odd (Nat.odd_iff.mpr hodd)]
      omega
    rw [hright, hsibling]
    simp [hodd]

/-- The carry of an increment of `n` has passed the bits below `h`. -/
def Carried (n h : Nat) : Prop := n + 1 = (n / 2 ^ h + 1) * 2 ^ h

theorem carried_zero (n : Nat) : Carried n 0 := by simp [Carried]

/-- A position is twice the position above it, plus its bit. -/
theorem position_eq (n h : Nat) :
    n / 2 ^ h = 2 * (n / 2 ^ (h + 1)) + (n.testBit h).toNat := by
  rw [Nat.testBit_eq_decide_div_mod_eq, Nat.pow_succ, ← Nat.div_div_eq_div_mul]
  rcases Nat.mod_two_eq_zero_or_one (n / 2 ^ h) with heven | hodd
  · simp [heven]
    omega
  · simp [hodd]
    omega

/-- A set bit passes the carry on. -/
theorem carried_succ {n h : Nat} (hcarried : Carried n h) (hbit : n.testBit h = true) :
    Carried n (h + 1) := by
  have hposition := position_eq n h
  rw [hbit, Bool.toNat_true] at hposition
  have hdouble : n / 2 ^ h + 1 = (n / 2 ^ (h + 1) + 1) * 2 := by omega
  have hpow : (n / 2 ^ (h + 1) + 1) * 2 ^ (h + 1) = (n / 2 ^ (h + 1) + 1) * 2 * 2 ^ h := by
    ring
  rw [Carried, hpow, ← hdouble]
  exact hcarried

/-- Where the carry arrives, the position is one more. -/
theorem carried_position {n h : Nat} (hcarried : Carried n h) :
    (n + 1) / 2 ^ h = n / 2 ^ h + 1 := by
  have hsum : n + 1 = (n / 2 ^ h + 1) * 2 ^ h := hcarried
  rw [hsum, Nat.mul_div_cancel _ (Nat.two_pow_pos _)]

/-- The carry leaves the bits it has passed clear. -/
theorem carry_below {n h i : Nat} (hcarried : Carried n h) (hi : i < h) :
    (n + 1).testBit i = false := by
  have hsum : n + 1 = (n / 2 ^ h + 1) * 2 ^ h := hcarried
  rw [hsum, Nat.mul_comm, Nat.testBit_two_pow_mul]
  simp [Nat.not_le_of_lt hi]

/-- Above the clear bit that stops the carry nothing changes. -/
theorem carry_above {n h i : Nat} (hcarried : Carried n h) (hbit : n.testBit h = false)
    (hi : h < i) : (n + 1) / 2 ^ i = n / 2 ^ i := by
  have hnext := carried_position hcarried
  have hposition := position_eq n h
  rw [hbit, Bool.toNat_false] at hposition
  -- Halving the even position and the odd one after it gives the same.
  have hhalf : (n + 1) / 2 ^ (h + 1) = n / 2 ^ (h + 1) := by
    rw [Nat.pow_succ, ← Nat.div_div_eq_div_mul, ← Nat.div_div_eq_div_mul, hnext]
    omega
  have hsum : i = h + 1 + (i - (h + 1)) := by omega
  rw [hsum, Nat.pow_add, ← Nat.div_div_eq_div_mul, hhalf, Nat.div_div_eq_div_mul]

/-- At the clear bit that stops the carry, the position before the increment is
    the sibling of the position after it. -/
theorem carry_at {n h : Nat} (hcarried : Carried n h) (hbit : n.testBit h = false) :
    ((n + 1) / 2 ^ h) ^^^ 1 = n / 2 ^ h := by
  have hposition := position_eq n h
  rw [hbit, Bool.toNat_false] at hposition
  rw [carried_position hcarried, Nat.xor_one_of_odd (Nat.odd_iff.mpr (by omega))]
  omega

end FullTree
