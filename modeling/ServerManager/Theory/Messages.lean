import ServerManager.Core.Encoding
import ServerManager.Merkle.Climb

/-!
# Proofs as Messages

A Merkle proof is sent as a message whose siblings are listed from the root
down, and read back by position. Storage is indexed by the distance from the
root as well, so entry `i` of the message is the sibling at level
`log2_root_size - 1 - i` on both sides.

The message stores the two sizes as 64-bit numbers, and decoding casts them to
`int`. A size that was an `int` survives this, so what was encoded is decoded as
it was. But the cast comes before all checks, so messages are also accepted whose
sizes only differ from those of a proof by multiples of `2 ^ 32`.

## Main definitions

* `Decodes`: What a message says of a proof, its sizes cast to `int`.
* `DecodesFaithfully`: The decoder reads a message as it stands, or rejects it
  because it is malformed.

## Theorems

* `setProtoSiblings_eq`: The loop that reads the siblings back.
* `Decodes.complete`, `decodes_of_ok`: The decoder finds what a message says.
* `proto_proof_round_trip`: Decoding undoes encoding.
* `decodes_faithfully_iff`: When decoding is faithful.
* `proto_proof_narrowed`: A malformed message that is accepted.
-/

namespace ServerManager

open MerkleTreeProof

/-- An `int` that is not negative survives being stored as 64 bits. -/
theorem castInt_ofNat {n : Nat} (hint : n < 2 ^ 31) : castInt (UInt64.ofNat n) = n := by
  have hsmall : (UInt64.ofNat n).toNat = n := by
    rw [UInt64.toNat_ofNat']
    exact Nat.mod_eq_of_lt (by omega)
  unfold castInt
  rw [hsmall]
  refine Int.bmod_eq_of_le_mul_two ?_ ?_
  · omega
  · omega

/-- The bytes of a hash are a hash. -/
theorem getProtoHash_bytes (hash : HashType) : getProtoHash hash.1 = .ok hash :=
  dif_pos hash.2

/-- What a message says of a proof, its sizes cast to `int`. -/
structure Decodes (m : MerkleTreeProofMessage) (p : ProofType) : Prop where
  targetAddress : p.targetAddress = m.targetAddress
  log2TargetSize : castInt m.log2TargetSize = p.log2TargetSize
  targetHash : p.targetHash.1 = m.targetHash
  log2RootSize : castInt m.log2RootSize = p.log2RootSize
  rootHash : p.rootHash.1 = m.rootHash
  siblingHashes : p.siblingHashes.map (fun hash => hash.1) = m.siblingHashes

/-- A message decodes to at most one proof. -/
theorem Decodes.unique {m : MerkleTreeProofMessage} {p q : ProofType} (hp : Decodes m p)
    (hq : Decodes m q) : p = q := by
  have hsiblings : p.siblingHashes.map (fun hash => hash.1) =
      q.siblingHashes.map (fun hash => hash.1) := hp.siblingHashes.trans hq.siblingHashes.symm
  refine ext_fields (hp.targetAddress.trans hq.targetAddress.symm) ?_
    (Subtype.ext (hp.targetHash.trans hq.targetHash.symm)) ?_
    (Subtype.ext (hp.rootHash.trans hq.rootHash.symm))
    (List.map_injective_iff.mpr Subtype.val_injective hsiblings)
  · exact Int.ofNat.inj (hp.log2TargetSize.symm.trans hq.log2TargetSize)
  · exact Int.ofNat.inj (hp.log2RootSize.symm.trans hq.log2RootSize)

/-- The sibling at position `i` is the one of this level. -/
theorem setSiblingHash_position (p : ProofType) (hash : HashType) {i : Nat}
    (hi : i < p.siblingHashes.length) :
    ∃ hlength, p.setSiblingHash hash ((p.log2RootSize : Int) - 1 - i) =
      .ok { p with siblingHashes := p.siblingHashes.set i hash, siblingsLength := hlength } := by
  have hindex : p.siblingIndex ((p.log2RootSize : Int) - 1 - i) = .ok i := by
    have hposition : (p.log2RootSize : Int) - 1 - (p.log2RootSize - 1 - i) = i := by omega
    unfold siblingIndex
    rw [hposition]
    dsimp only
    rw [if_neg (by omega), Int.toNat_natCast]
  refine ⟨List.length_set.trans p.siblingsLength, ?_⟩
  unfold setSiblingHash
  rw [hindex]
  rfl

/-- The loop that reads the siblings from position `i` on replaces those that are
    there and leaves the others as they were. -/
theorem setProtoSiblings_eq (hashes : List HashType) (i : Nat) (p : ProofType)
    (hlength : i + hashes.length = p.siblingHashes.length) :
    ∃ hsiblings, setProtoSiblings p.log2RootSize i (hashes.map fun hash => hash.1) p =
      .ok { p with
        siblingHashes := p.siblingHashes.take i ++ hashes, siblingsLength := hsiblings } := by
  have hcount : (p.siblingHashes.take i ++ hashes).length = p.log2RootSize - p.log2TargetSize := by
    rw [List.length_append, List.length_take, ← p.siblingsLength]
    omega
  refine ⟨hcount, ?_⟩
  induction hashes generalizing i p with
  | nil =>
      have htake : p.siblingHashes.take i ++ [] = p.siblingHashes := by
        rw [List.append_nil]
        exact List.take_of_length_le (Nat.le_of_eq hlength.symm)
      exact congrArg Except.ok (ext_fields rfl rfl rfl rfl rfl htake.symm)
  | cons hash hashes ih =>
      rw [List.length_cons] at hlength
      have hi : i < p.siblingHashes.length := by omega
      rcases setSiblingHash_position p hash hi with ⟨hset, hseteq⟩
      let q : ProofType :=
        { p with siblingHashes := p.siblingHashes.set i hash, siblingsLength := hset }
      have htake : q.siblingHashes.take (i + 1) ++ hashes =
          p.siblingHashes.take i ++ hash :: hashes := by
        show (p.siblingHashes.set i hash).take (i + 1) ++ hashes = _
        rw [List.take_succ_eq_append_getElem (List.length_set.symm ▸ hi),
          List.take_set_of_le (Nat.le_refl i), List.getElem_set_self, List.append_assoc,
          List.singleton_append]
      rcases ih (i + 1) q (by rw [List.length_set]; omega) (htake ▸ hcount) with hrest
      rw [List.map_cons, setProtoSiblings, getProtoHash_bytes]
      dsimp only [bind, Except.bind]
      rw [hseteq]
      refine Eq.trans hrest (congrArg Except.ok ?_)
      exact ext_fields rfl rfl rfl rfl rfl htake

/-- A message that says what a proof is decodes to it. -/
theorem Decodes.complete {m : MerkleTreeProofMessage} {p : ProofType} (hm : Decodes m p) :
    getProtoMerkleTreeProof m = .ok p := by
  have hle := p.targetLe
  have hlength := p.siblingsLength
  have hcount : m.siblingHashes.length = p.log2RootSize - p.log2TargetSize := by
    rw [← hm.siblingHashes, List.length_map, hlength]
  let started : ProofType :=
    { MerkleTreeProof.blank p.log2RootSize p.log2TargetSize p.rootPos hle with
      targetAddress := p.targetAddress
      targetHash := p.targetHash
      rootHash := p.rootHash }
  have hroom : 0 + p.siblingHashes.length = started.siblingHashes.length := by
    rw [Nat.zero_add, hlength]
    exact started.siblingsLength.symm
  rcases setProtoSiblings_eq p.siblingHashes 0 started hroom with ⟨hsiblings, hloop⟩
  rw [getProtoMerkleTreeProof, hm.log2RootSize, hm.log2TargetSize, new_eq p.rootPos hle,
    ← hm.targetHash, ← hm.rootHash, getProtoHash_bytes, getProtoHash_bytes, ← hm.targetAddress,
    hcount, ← hm.siblingHashes]
  dsimp only [bind, Except.bind]
  rw [if_neg (by omega)]
  exact hloop.trans (congrArg Except.ok (ext_fields rfl rfl rfl rfl rfl rfl))

/-- The siblings of the message of a proof are those of the proof, in order. -/
theorem setProto_siblingHashes (p : ProofType) : (setProtoMerkleTreeProof p).siblingHashes =
    p.siblingHashes.map fun hash => hash.1 := by
  have hlength := p.siblingsLength
  have hroot := p.rootPos
  refine List.ext_getElem ?_ fun i hi hi' => ?_
  · rw [List.length_map, hlength]
    exact (List.length_map _).trans List.length_range
  · rw [List.length_map] at hi'
    have hposition : p.log2RootSize - 1 - (p.log2RootSize - 1 - i) = i := by omega
    simp only [setProtoMerkleTreeProof, List.getElem_map, List.getElem_range, siblingAt, hposition]
    rw [List.getD_eq_getElem _ _ hi']

/-- Decoding the message that a proof is written into, its sizes being `int`s,
    gives back the proof, with the same sizes, address, hashes and siblings. -/
theorem proto_proof_round_trip (p : ProofType) (hint : p.log2RootSize < 2 ^ 31) :
    getProtoMerkleTreeProof (setProtoMerkleTreeProof p) = .ok p := by
  have hmessage : Decodes (setProtoMerkleTreeProof p) p :=
    { targetAddress := rfl
      log2TargetSize := castInt_ofNat (Nat.lt_of_le_of_lt p.targetLe hint)
      targetHash := rfl
      log2RootSize := castInt_ofNat hint
      rootHash := rfl
      siblingHashes := (setProto_siblingHashes p).symm }
  exact hmessage.complete

theorem proto_proof_round_trip_sample :
    getProtoMerkleTreeProof (setProtoMerkleTreeProof
      { targetAddress := 32, log2TargetSize := 5, targetHash := zeroHash, log2RootSize := 7,
        rootHash := zeroHash, siblingHashes := [zeroHash, zeroHash], rootPos := by decide,
        targetLe := by decide, siblingsLength := rfl }) =
      .ok { targetAddress := 32, log2TargetSize := 5, targetHash := zeroHash, log2RootSize := 7,
            rootHash := zeroHash, siblingHashes := [zeroHash, zeroHash], rootPos := by decide,
            targetLe := by decide, siblingsLength := rfl } :=
  proto_proof_round_trip _ (by decide)

/-- All hashes of a message have the size of a hash. -/
def HashesValid (m : MerkleTreeProofMessage) : Prop :=
  m.targetHash.length = 32 ∧ m.rootHash.length = 32 ∧
    ∀ bytes ∈ m.siblingHashes, bytes.length = 32

/-- There are `n` levels between the target and the root. -/
def LevelsBetween (root target n : Nat) : Prop :=
  0 < root ∧ target + n = root

/-- The sizes of a message as the decoder sees them. -/
def NarrowedLevels (m : MerkleTreeProofMessage) : Prop :=
  m.log2RootSize.toNat % 2 ^ 32 < 2 ^ 31 ∧ LevelsBetween (m.log2RootSize.toNat % 2 ^ 32)
    (m.log2TargetSize.toNat % 2 ^ 32) m.siblingHashes.length

/-- The cast to `int` is a natural number exactly if the low half is below `2 ^ 31`. -/
theorem castInt_eq_iff {value : UInt64} {n : Nat} :
    castInt value = n ↔ value.toNat % 2 ^ 32 = n ∧ n < 2 ^ 31 := by
  unfold castInt
  rw [Int.bmod_def]
  split <;> omega

theorem bind_ok {α β : Type} {x : Except String α} {f : α → Except String β} {b : β}
    (hb : (x >>= f) = .ok b) : ∃ a, x = .ok a ∧ f a = .ok b := by
  cases x with
  | error e => cases hb
  | ok a => exact ⟨a, rfl, hb⟩

theorem length_of_getProtoHash {bytes : Bytes} {hash : HashType}
    (hok : getProtoHash bytes = .ok hash) : bytes.length = 32 := by
  unfold getProtoHash at hok
  split at hok
  · next hsize => exact hsize
  · cases hok

/-- The constructor only takes sizes that are natural numbers. -/
theorem sizes_of_new {root target : Int} {p : ProofType}
    (hok : MerkleTreeProof.new root target = .ok p) :
    ∃ r t : Nat, root = r ∧ target = t ∧ 0 < r := by
  unfold MerkleTreeProof.new at hok
  split_ifs at hok with hroot htarget
  · exact ⟨root.toNat, target.toNat, by omega, by omega, by omega⟩

/-- The loop only ends well if all siblings have the size of a hash. -/
theorem length_of_setProtoSiblings {root : Int} {hashes : List Bytes} {i : Nat} {p q : ProofType}
    (hloop : setProtoSiblings root i hashes p = .ok q) : ∀ bytes ∈ hashes, bytes.length = 32 := by
  induction hashes generalizing i p with
  | nil => exact fun _ hmem => absurd hmem List.not_mem_nil
  | cons bytes hashes ih =>
      rcases bind_ok hloop with ⟨hash, hhash, hloop⟩
      rcases bind_ok hloop with ⟨p', _, hloop⟩
      rintro b (_ | ⟨_, hmem⟩)
      · exact length_of_getProtoHash hhash
      · exact ih hloop b hmem

/-- What passes the checks of the decoder. -/
theorem checks_of_ok {m : MerkleTreeProofMessage} {p : ProofType}
    (hok : getProtoMerkleTreeProof m = .ok p) : HashesValid m ∧ NarrowedLevels m := by
  unfold getProtoMerkleTreeProof at hok
  rcases bind_ok hok with ⟨started, hnew, hok⟩
  rcases bind_ok hok with ⟨targetHash, htargetHash, hok⟩
  rcases bind_ok hok with ⟨rootHash, hrootHash, hok⟩
  rcases sizes_of_new hnew with ⟨root, target, hroot, htarget, hpos⟩
  split at hok
  · rcases bind_ok hok with ⟨_, herror, _⟩
    cases herror
  · next hcount =>
      rw [not_not, hroot, htarget] at hcount
      rw [castInt_eq_iff] at hroot htarget
      refine ⟨⟨length_of_getProtoHash htargetHash, length_of_getProtoHash hrootHash,
        length_of_setProtoSiblings hok⟩, ?_, ?_, ?_⟩
      · rw [hroot.1]
        exact hroot.2
      · rw [hroot.1]
        exact hpos
      · rw [hroot.1, htarget.1]
        omega

/-- A message that passes the checks says what some proof is. -/
theorem decodes_of_checks {m : MerkleTreeProofMessage} (hhashes : HashesValid m)
    (hlevels : NarrowedLevels m) : ∃ p, Decodes m p := by
  rcases hhashes with ⟨htarget, hroot, hsiblings⟩
  rcases hlevels with ⟨hint, hpos, hcount⟩
  let p : ProofType :=
    { targetAddress := m.targetAddress
      log2TargetSize := m.log2TargetSize.toNat % 2 ^ 32
      targetHash := ⟨m.targetHash, htarget⟩
      log2RootSize := m.log2RootSize.toNat % 2 ^ 32
      rootHash := ⟨m.rootHash, hroot⟩
      siblingHashes := m.siblingHashes.pmap Subtype.mk hsiblings
      rootPos := hpos
      targetLe := by omega
      siblingsLength := by
        rw [List.length_pmap]
        omega }
  exact ⟨p,
    { targetAddress := rfl
      log2TargetSize := castInt_eq_iff.mpr ⟨rfl, show m.log2TargetSize.toNat % 2 ^ 32 < 2 ^ 31 by omega⟩
      targetHash := rfl
      log2RootSize := castInt_eq_iff.mpr ⟨rfl, hint⟩
      rootHash := rfl
      siblingHashes := by
        show (m.siblingHashes.pmap Subtype.mk hsiblings).map _ = _
        rw [List.map_pmap]
        exact List.pmap_eq_self.mpr fun _ _ => rfl }⟩

/-- What the decoder accepts, it reads as it stands but for the cast of the sizes. -/
theorem decodes_of_ok {m : MerkleTreeProofMessage} {p : ProofType}
    (hok : getProtoMerkleTreeProof m = .ok p) : Decodes m p := by
  rcases checks_of_ok hok with ⟨hhashes, hlevels⟩
  rcases decodes_of_checks hhashes hlevels with ⟨q, hq⟩
  cases hok.symm.trans hq.complete
  exact hq

/-- The decoder accepts what passes its checks. -/
theorem accepts_iff (m : MerkleTreeProofMessage) :
    (∃ p, getProtoMerkleTreeProof m = .ok p) ↔ HashesValid m ∧ NarrowedLevels m := by
  constructor
  · rintro ⟨p, hok⟩
    exact checks_of_ok hok
  · rintro ⟨hhashes, hlevels⟩
    rcases decodes_of_checks hhashes hlevels with ⟨p, hp⟩
    exact ⟨p, hp.complete⟩

/-- Both sizes are `int`s. -/
def SizesFit (m : MerkleTreeProofMessage) : Prop :=
  m.log2RootSize.toNat < 2 ^ 31 ∧ m.log2TargetSize.toNat < 2 ^ 31

theorem ofNat_eq_of_castInt {value : UInt64} {n : Nat} (hn : castInt value = n) :
    UInt64.ofNat n = value ↔ value.toNat < 2 ^ 31 := by
  rw [castInt_eq_iff] at hn
  constructor
  · intro hvalue
    rw [← hvalue, UInt64.toNat_ofNat']
    omega
  · intro hint
    have hsame : n = value.toNat := by omega
    rw [hsame, UInt64.ofNat_toNat]

/-- Encoding what a message was decoded to gives back the message exactly if its
    sizes are `int`s. -/
theorem Decodes.setProto_iff {m : MerkleTreeProofMessage} {p : ProofType} (hm : Decodes m p) :
    setProtoMerkleTreeProof p = m ↔ SizesFit m := by
  have hsizes := and_congr (ofNat_eq_of_castInt hm.log2RootSize)
    (ofNat_eq_of_castInt hm.log2TargetSize)
  refine Iff.trans ?_ hsizes
  constructor
  · intro hsame
    exact ⟨congrArg MerkleTreeProofMessage.log2RootSize hsame,
      congrArg MerkleTreeProofMessage.log2TargetSize hsame⟩
  · rintro ⟨hroot, htarget⟩
    have hsiblings := (setProto_siblingHashes p).trans hm.siblingHashes
    rcases m with ⟨_, _, _, _, _, _⟩
    exact (MerkleTreeProofMessage.mk.injEq ..).mpr ⟨hm.targetAddress, htarget, hm.targetHash, hroot,
      hm.rootHash, hsiblings⟩

/-- Some hash does not have the size of a hash, or the sizes, taken as the 64-bit
    numbers they are, do not go with each other or with the siblings. -/
def Malformed (m : MerkleTreeProofMessage) : Prop :=
  ¬ HashesValid m ∨ m.log2RootSize = 0 ∨ m.log2TargetSize > m.log2RootSize ∨
    m.siblingHashes.length ≠ (m.log2RootSize - m.log2TargetSize).toNat

/-- The decoder only accepts what it reads faithfully, and throws exactly on what
    is malformed. -/
def DecodesFaithfully (m : MerkleTreeProofMessage) : Prop :=
  (∀ p, getProtoMerkleTreeProof m = .ok p → setProtoMerkleTreeProof p = m) ∧
    ((∃ what, getProtoMerkleTreeProof m = .error what) ↔ Malformed m)

/-- In other words, the hashes and the levels are not both as they should be. -/
theorem malformed_iff (m : MerkleTreeProofMessage) : Malformed m ↔
    ¬ (HashesValid m ∧ LevelsBetween m.log2RootSize.toNat m.log2TargetSize.toNat
      m.siblingHashes.length) := by
  have hzero : m.log2RootSize = 0 ↔ m.log2RootSize.toNat = 0 := UInt64.toNat_inj.symm
  have hgt : m.log2TargetSize > m.log2RootSize ↔
    m.log2RootSize.toNat < m.log2TargetSize.toNat := UInt64.lt_iff_toNat_lt
  unfold Malformed LevelsBetween
  rw [not_and_or, hzero, hgt]
  refine or_congr_right ?_
  by_cases hle : m.log2TargetSize ≤ m.log2RootSize
  · rw [UInt64.toNat_sub_of_le _ _ hle]
    rw [UInt64.le_iff_toNat_le] at hle
    omega
  · rw [UInt64.le_iff_toNat_le] at hle
    omega

theorem narrowedLevels_iff {m : MerkleTreeProofMessage} (hfit : SizesFit m) : NarrowedLevels m ↔
    LevelsBetween m.log2RootSize.toNat m.log2TargetSize.toNat m.siblingHashes.length := by
  have hroot : m.log2RootSize.toNat % 2 ^ 32 = m.log2RootSize.toNat :=
    Nat.mod_eq_of_lt (Nat.lt_trans hfit.1 (by decide))
  have htarget : m.log2TargetSize.toNat % 2 ^ 32 = m.log2TargetSize.toNat :=
    Nat.mod_eq_of_lt (Nat.lt_trans hfit.2 (by decide))
  unfold NarrowedLevels
  rw [hroot, htarget]
  exact and_iff_right hfit.1

theorem error_iff (m : MerkleTreeProofMessage) :
    (∃ what, getProtoMerkleTreeProof m = .error what) ↔ ¬ (HashesValid m ∧ NarrowedLevels m) := by
  rw [← accepts_iff]
  rcases getProtoMerkleTreeProof m with what | p
  · exact iff_of_true ⟨what, rfl⟩ (fun ⟨_, hok⟩ => by cases hok)
  · exact iff_of_false (fun ⟨_, herror⟩ => by cases herror) (fun hno => hno ⟨p, rfl⟩)

/-- The decoder is faithful on a message exactly if the sizes are `int`s, or the
    message is to be rejected anyway: for its hashes, or for its levels, both as
    they stand and after the cast. -/
theorem decodes_faithfully_iff (m : MerkleTreeProofMessage) : DecodesFaithfully m ↔
    SizesFit m ∨ ¬ HashesValid m ∨
      (¬ LevelsBetween m.log2RootSize.toNat m.log2TargetSize.toNat m.siblingHashes.length ∧
        ¬ NarrowedLevels m) := by
  unfold DecodesFaithfully
  rw [error_iff, malformed_iff]
  constructor
  · rintro ⟨hsame, hthrows⟩
    by_cases hfit : SizesFit m
    · exact Or.inl hfit
    · have hnot : ¬ (HashesValid m ∧ NarrowedLevels m) := by
        intro hchecks
        rcases (accepts_iff m).mpr hchecks with ⟨p, hok⟩
        exact hfit ((decodes_of_ok hok).setProto_iff.mp (hsame p hok))
      have hmalformed := hthrows.mp hnot
      by_cases hhashes : HashesValid m
      · exact Or.inr (Or.inr ⟨fun hlevels => hmalformed ⟨hhashes, hlevels⟩,
          fun hlevels => hnot ⟨hhashes, hlevels⟩⟩)
      · exact Or.inr (Or.inl hhashes)
  · intro hcases
    have hrejects : ¬ (HashesValid m ∧ NarrowedLevels m) → ∀ p,
        getProtoMerkleTreeProof m = .ok p → setProtoMerkleTreeProof p = m :=
      fun hnot p hok => absurd (checks_of_ok hok) hnot
    rcases hcases with hfit | hhashes | ⟨hlevels, hnarrowed⟩
    · exact ⟨fun p hok => (decodes_of_ok hok).setProto_iff.mpr hfit, by
        rw [narrowedLevels_iff hfit]⟩
    · exact ⟨hrejects fun hchecks => hhashes hchecks.1,
        iff_of_true (fun hchecks => hhashes hchecks.1) (fun hchecks => hhashes hchecks.1)⟩
    · exact ⟨hrejects fun hchecks => hnarrowed hchecks.2,
        iff_of_true (fun hchecks => hnarrowed hchecks.2) (fun hchecks => hlevels hchecks.2)⟩

/-- A root size of `2 ^ 32 + 5` is read as 5, and no siblings are expected. -/
theorem proto_proof_narrowed :
    let m : MerkleTreeProofMessage :=
      { targetAddress := 0, log2TargetSize := 5, targetHash := zeroHash.1,
        log2RootSize := 2 ^ 32 + 5, rootHash := zeroHash.1, siblingHashes := [] }
    ¬ DecodesFaithfully m ∧ Malformed m ∧ ∃ p, getProtoMerkleTreeProof m = .ok p ∧
      (setProtoMerkleTreeProof p).log2RootSize = 5 := by
  intro m
  let p : ProofType :=
    { targetAddress := 0, log2TargetSize := 5, targetHash := zeroHash, log2RootSize := 5,
      rootHash := zeroHash, siblingHashes := [], rootPos := by decide, targetLe := by decide,
      siblingsLength := rfl }
  have hm : Decodes m p :=
    { targetAddress := rfl
      log2TargetSize := castInt_eq_iff.mpr (by decide)
      targetHash := rfl
      log2RootSize := castInt_eq_iff.mpr (by decide)
      rootHash := rfl
      siblingHashes := rfl }
  have hmalformed : Malformed m := Or.inr (Or.inr (Or.inr (by decide)))
  have hsizes : (setProtoMerkleTreeProof p).log2RootSize ≠ m.log2RootSize := by decide
  refine ⟨fun hfaithful => ?_, hmalformed, p, hm.complete, rfl⟩
  exact hsizes (congrArg MerkleTreeProofMessage.log2RootSize (hfaithful.1 p hm.complete))

end ServerManager
