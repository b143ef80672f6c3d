import ServerManager.Core.Types

/-!
# Keccak-256

The hash function the manager is linked with, on byte strings. The development
is about any function in its place; this one stands wherever a run of the
manager is shown on concrete messages.

The state is a list of 25 lanes, lane `(x, y)` at position `x + 5 * y`.

## Main definitions

* `Keccak.permute`: The permutation Keccak-f[1600].
* `Keccak.absorb`: The sponge with a rate of 136 bytes.
* `keccak256`: The hash function.
-/

namespace ServerManager

namespace Keccak

/-- The rotation of each lane in the rho step. -/
def rotations : List Nat :=
  [0, 1, 62, 28, 27, 36, 44, 6, 55, 20, 3, 10, 43, 25, 39, 41, 45, 15, 21, 8, 18, 2, 61, 56, 14]

/-- The constants of the iota step, one for each round. -/
def roundConstants : List UInt64 :=
  [0x0000000000000001, 0x0000000000008082, 0x800000000000808A, 0x8000000080008000,
   0x000000000000808B, 0x0000000080000001, 0x8000000080008081, 0x8000000000008009,
   0x000000000000008A, 0x0000000000000088, 0x0000000080008009, 0x000000008000000A,
   0x000000008000808B, 0x800000000000008B, 0x8000000000008089, 0x8000000000008003,
   0x8000000000008002, 0x8000000000000080, 0x000000000000800A, 0x800000008000000A,
   0x8000000080008081, 0x8000000000008080, 0x0000000080000001, 0x8000000080008008]

/-- Position of lane `(x, y)`. -/
def position (x y : Nat) : Nat := x % 5 + 5 * (y % 5)

def lane (a : List UInt64) (x y : Nat) : UInt64 := a.getD (position x y) 0

/-- A state given by its lanes. -/
def tabulate (f : Nat → Nat → UInt64) : List UInt64 :=
  (List.range 25).map fun i => f (i % 5) (i / 5)

def rotate (x : UInt64) (n : Nat) : UInt64 :=
  (x <<< UInt64.ofNat n) ||| (x >>> UInt64.ofNat (64 - n))

def theta (a : List UInt64) : List UInt64 :=
  let column := fun x => lane a x 0 ^^^ lane a x 1 ^^^ lane a x 2 ^^^ lane a x 3 ^^^ lane a x 4
  tabulate fun x y => lane a x y ^^^ column (x + 4) ^^^ rotate (column (x + 1)) 1

/-- The rho and pi steps: lane `(x, y)` moves to `(y, 2 * x + 3 * y)`. -/
def rhoPi (a : List UInt64) : List UInt64 :=
  tabulate fun x y => rotate (lane a (x + 3 * y) x) (rotations.getD (position (x + 3 * y) x) 0)

def chi (a : List UInt64) : List UInt64 :=
  tabulate fun x y => lane a x y ^^^ (~~~lane a (x + 1) y &&& lane a (x + 2) y)

def round (a : List UInt64) (constant : UInt64) : List UInt64 :=
  (chi (rhoPi (theta a))).modify 0 (· ^^^ constant)

/-- Keccak-f[1600]. -/
def permute (a : List UInt64) : List UInt64 := roundConstants.foldl round a

/-- Eight bytes as a lane, the first byte least significant. -/
def toLane (b : Bytes) : UInt64 := b.foldr (fun x acc => (acc <<< 8) ||| x.toUInt64) 0

def ofLane (x : UInt64) : Bytes := (List.range 8).map fun i => (x >>> UInt64.ofNat (8 * i)).toUInt8

/-- Number of bytes absorbed at a time. -/
def rate : Nat := 136

/-- The padding of the original Keccak submission. -/
def pad (b : Bytes) : Bytes :=
  let missing := rate - b.length % rate
  if missing = 1 then b ++ [0x81] else b ++ 0x01 :: List.replicate (missing - 2) 0 ++ [0x80]

/-- Absorb a padded message, one block for each unit of the bound. -/
def absorb (a : List UInt64) (b : Bytes) : Nat → List UInt64
  | 0 => a
  | n + 1 =>
    let block := fun i => if i < rate / 8 then toLane ((b.drop (8 * i)).take 8) else 0
    absorb (permute (tabulate fun x y => lane a x y ^^^ block (position x y))) (b.drop rate) n

end Keccak

/-- Keccak-256. -/
abbrev keccak256 : Keccak where
  hash b :=
    let padded := Keccak.pad b
    let state := Keccak.absorb (List.replicate 25 0) padded (padded.length / Keccak.rate)
    ⟨(List.range 32).map fun i => (Keccak.ofLane (state.getD (i / 8) 0)).getD (i % 8) 0, by
      rw [List.length_map, List.length_range]⟩

end ServerManager
