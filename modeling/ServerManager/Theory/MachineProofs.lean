import ServerManager.Theory.Gathering
import ServerManager.Theory.Messages
import ServerManager.Theory.Response

/-!
# Proofs from the Machine

What the records of an accepted input are worth when the machine server tells the
truth about its memory. Its proofs are then paths in one tree over the whole
address space, so a proof that is cut at the ends of a memory range climbs from
the node of an entry to the node of the range. A range is aligned to its length;
the bits of an address within it are those of the offset, and the client can climb
with the number of the entry alone.

## Main definitions

* `machineNode`: A node of the tree of the machine.
* `ProofOf`: A proof of one of its nodes.
* `Faithful`: A machine server that tells the truth.
* `EntryProved`: What a client can check of an entry of a range.

## Theorems

* `ProofOf.reached_eq`: The climb of a proof goes through nodes of the machine.
* `entryProved_of_slice`: A sliced proof.
* `keccaks_proved`, `collected_proved`, `gathered_proved`: The records of an input.
-/

namespace ServerManager

open Coroutine FullTree MerkleTreeProof

variable [Keccak]

/-- Log2 of the size of the words that are the leaves of the machine's tree. -/
def log2MachineWordSize : Nat := 3

/-- Log2 of the size of the address space of the machine. -/
def log2MachineRootSize : Nat := 64

/-- The bytes of the machine from an address on. -/
def memoryBytes (memory : Nat → UInt8) (address n : Nat) : Bytes :=
  (List.range n).map fun k => memory (address + k)

/-- The hash of a word of the machine. -/
def wordHash (memory : Nat → UInt8) (i : Nat) : HashType :=
  Keccak.hash (memoryBytes memory (i * 2 ^ log2MachineWordSize) (2 ^ log2MachineWordSize))

/-- A node of the tree of the machine, by its size and position. -/
def machineNode (memory : Nat → UInt8) (level position : Nat) : HashType :=
  node hasherType.concat (wordHash memory) (level - log2MachineWordSize) position

/-- The hash of the whole machine. -/
def machineRoot (memory : Nat → UInt8) : HashType := machineNode memory log2MachineRootSize 0

/-- A proof of the node of size `2 ^ level` at an address of the machine. -/
structure ProofOf (memory : Nat → UInt8) (address : UInt64) (level : Nat) (p : ProofType) : Prop where
  targetAddress : p.targetAddress = address
  log2TargetSize : p.log2TargetSize = level
  log2RootSize : p.log2RootSize = log2MachineRootSize
  targetHash : p.targetHash = machineNode memory level (address.toNat >>> level)
  rootHash : p.rootHash = machineRoot memory
  siblings : ∀ k, level ≤ k → k < log2MachineRootSize →
    p.siblingAt k = machineNode memory k ((address.toNat >>> k) ^^^ 1)

/-- A machine server that tells the truth: asked for a proof, for some memory or for
    the root hash it answers, if it does, with those of its machine, and the machine
    stays as it is. -/
structure Faithful (server : Server) (memory : server.State → Nat → UInt8) : Prop where
  getProof : ∀ address log2Size m r m', server.Answers (.getProof address log2Size) m r m' →
    r.status.isOk = true → memory m' = memory m ∧
      ∃ p, Decodes r.body p ∧ ProofOf (memory m) address log2Size.toNat p
  readMemory : ∀ address length m r m', server.Answers (.readMemory address length) m r m' →
    r.status.isOk = true → memory m' = memory m ∧
      r.body = memoryBytes (memory m) address.toNat length.toNat
  getRootHash : ∀ m r m', server.Answers .getRootHash m r m' →
    r.status.isOk = true → memory m' = memory m ∧ r.body = (machineRoot (memory m)).1

/-! ### Climbing through the machine -/

section Climb

variable {memory : Nat → UInt8} {address : UInt64} {level : Nat} {p : ProofType}

/-- The climb of a proof goes through nodes of the machine. -/
theorem ProofOf.reached_eq (hp : ProofOf memory address level p)
    (hword : log2MachineWordSize ≤ level) {k : Nat} (hlow : level ≤ k)
    (hhigh : k ≤ log2MachineRootSize) :
    p.reached hasherType k = machineNode memory k (address.toNat >>> k) := by
  have hclimb := climb_nodes hasherType (wordHash memory) log2MachineWordSize address.toNat
    p.siblingAt (k - level) level hword
    fun i hi hi' => hp.siblings i hi (by omega)
  have hsum : level + (k - level) = k := by omega
  rw [hsum] at hclimb
  rw [reached, hp.targetAddress, hp.log2TargetSize, hp.targetHash]
  exact hclimb

omit [Keccak] in
/-- Only as many bits of the index matter as there are siblings. -/
theorem foldSiblings_add {Hash : Type} (H : Hasher Hash) (index c : Nat) (hash : Hash)
    (siblings : List Hash) :
    foldSiblings H (2 ^ siblings.length * c + index) hash siblings =
      foldSiblings H index hash siblings := by
  induction siblings generalizing index hash with
  | nil => rfl
  | cons sibling rest ih =>
      have hpow : 2 ^ (sibling :: rest).length * c = 2 * (2 ^ rest.length * c) := by
        rw [List.length_cons, Nat.pow_succ, Nat.mul_comm _ 2, Nat.mul_assoc]
      have hhalf : (2 * (2 ^ rest.length * c) + index) / 2 = 2 ^ rest.length * c + index / 2 := by
        omega
      have hbit : (2 * (2 ^ rest.length * c) + index) % 2 = index % 2 := by omega
      rw [hpow, foldSiblings, foldSiblings, hhalf, hbit, ih]

end Climb

/-! ### An entry of a range -/

section Entry

omit [Keccak] in
/-- The numbers of a range: its length is a power of two that divides its start, and
    its size is the exponent. -/
theorem RangeKept.shape {range : MemoryRangeDescriptionType} (hrange : RangeKept range) :
    ∃ k, k < 64 ∧ range.length.toNat = 2 ^ k ∧ range.log2Size.toNat = k ∧
      castInt range.log2Size = k ∧ range.start.toNat = range.start.toNat / 2 ^ k * 2 ^ k := by
  rcases isPowerOfTwo_eq hrange.power with ⟨k, hk, hlength⟩
  have hlog : (ilog2 range.length).toNat = k := by
    rw [ilog2, hlength, Nat.log2_two_pow]
    exact UInt64.toNat_ofNat_of_lt' (Nat.lt_of_lt_of_le hk (by decide))
  have hsize : range.log2Size = UInt64.ofNat k := by
    rw [← UInt64.toNat_inj, hrange.log2Size, hlog]
    exact (UInt64.toNat_ofNat_of_lt' (Nat.lt_of_lt_of_le hk (by decide))).symm
  refine ⟨k, hk, hlength, by rw [hrange.log2Size, hlog], ?_, ?_⟩
  · rw [hsize]
    exact castInt_ofNat (by omega)
  · have hstart := congrArg UInt64.toNat hrange.aligned
    rw [UInt64.toNat_shiftLeft, UInt64.toNat_shiftRight, hlog, Nat.mod_eq_of_lt hk,
      Nat.shiftRight_eq_div_pow, Nat.shiftLeft_eq] at hstart
    have hle : range.start.toNat / 2 ^ k * 2 ^ k ≤ range.start.toNat := Nat.div_mul_le_self _ _
    rwa [Nat.mod_eq_of_lt (Nat.lt_of_le_of_lt hle range.start.toNat_lt)] at hstart

/-- The hash of entry `j` of a hashes range in the machine. -/
def entryNode (memory : Nat → UInt8) (range : MemoryRangeDescriptionType) (j : Nat) : HashType :=
  machineNode memory log2KeccakSize (range.start.toNat / keccakSize + j)

/-- The hash of a whole range in the machine. -/
def rangeNode (memory : Nat → UInt8) (range : MemoryRangeDescriptionType) : HashType :=
  machineNode memory range.log2Size.toNat (range.start.toNat >>> range.log2Size.toNat)

/-- What a client can check of entry `j` of a hashes range: that the siblings lead
    from the entry, with the bits of `j`, to the hash of the range. -/
structure EntryProved (memory : Nat → UInt8) (range : MemoryRangeDescriptionType) (j : Nat)
    (hash : KeccakType) : Prop where
  inside : (j + 1) * keccakSize ≤ range.length.toNat
  bytes : hash.keccak.1 = memoryBytes memory (range.start.toNat + j * keccakSize) keccakSize
  root : hash.keccakInHashes.rootHash = rangeNode memory range
  levels : log2KeccakSize + (siblingsUpwards hash.keccakInHashes).length = range.log2Size.toNat
  fold : foldSiblings hasherType j (entryNode memory range j) (siblingsUpwards hash.keccakInHashes) =
    rangeNode memory range

variable {memory : Nat → UInt8} {range : MemoryRangeDescriptionType} {address : UInt64}
  {p q : ProofType} {j : Nat}

/-- A proof of an entry that is cut at the end of the range. -/
theorem fold_slice (hrange : RangeKept range) (hp : ProofOf memory address log2KeccakSize p)
    (haddress : address.toNat = range.start.toNat + j * keccakSize)
    (hj : (j + 1) * keccakSize ≤ range.length.toNat)
    (hslice : p.slice hasherType (castInt range.log2Size) log2KeccakSize = .ok q) :
    q.rootHash = rangeNode memory range ∧
    log2KeccakSize + (siblingsUpwards q).length = range.log2Size.toNat ∧
    foldSiblings hasherType j (entryNode memory range j) (siblingsUpwards q) =
      rangeNode memory range := by
  rcases hrange.shape with ⟨k, hk, hlength, hsize, hcast, hstart⟩
  have hkeccak : keccakSize = 2 ^ log2KeccakSize := rfl
  rw [hcast] at hslice
  -- a range that is shorter than an entry is refused
  have hlow : log2KeccakSize ≤ k := by
    by_contra hshort
    have hout : ¬ ((p.log2TargetSize : Int) ≤ (log2KeccakSize : Nat) ∧
        ((log2KeccakSize : Nat) : Int) ≤ (k : Nat) ∧ ((k : Nat) : Int) ≤ p.log2RootSize ∧
        (0 : Int) < (k : Nat)) := by omega
    rcases p.slice_outside hasherType hout with ⟨message, herror, -⟩
    rw [herror] at hslice
    cases hslice
  have hpos : 0 < k := Nat.lt_of_lt_of_le (by decide) hlow
  have hroot : k ≤ p.log2RootSize := by
    rw [hp.log2RootSize]
    exact Nat.le_of_lt hk
  have htarget : p.log2TargetSize ≤ log2KeccakSize := Nat.le_of_eq hp.log2TargetSize
  rw [p.slice_eq hasherType hpos hlow htarget hroot, Except.ok.injEq] at hslice
  subst hslice
  have hsplit : (2 : Nat) ^ k = 2 ^ (k - log2KeccakSize) * keccakSize := by
    rw [hkeccak, ← Nat.pow_add, Nat.sub_add_cancel hlow]
  -- the position of the entry: that of the range, and then the number of the entry
  obtain ⟨b, hb⟩ : ∃ b, range.start.toNat = 2 ^ (k - log2KeccakSize) * b * keccakSize := by
    refine ⟨range.start.toNat / 2 ^ k, ?_⟩
    rw [Nat.mul_right_comm, ← hsplit, Nat.mul_comm]
    exact hstart
  have hentry : address.toNat / keccakSize = 2 ^ (k - log2KeccakSize) * b + j := by
    rw [haddress, hb, ← Nat.add_mul]
    exact Nat.mul_div_cancel _ (by decide)
  have hfirst : range.start.toNat / keccakSize = 2 ^ (k - log2KeccakSize) * b := by
    rw [hb]
    exact Nat.mul_div_cancel _ (by decide)
  have hsame : address.toNat >>> k = range.start.toNat >>> k := by
    have hdiv : ∀ n, n >>> k = n / keccakSize / 2 ^ (k - log2KeccakSize) := by
      intro n
      rw [Nat.shiftRight_eq_div_pow, hsplit, Nat.div_div_eq_div_mul, Nat.mul_comm]
    have hless : j < 2 ^ (k - log2KeccakSize) := by
      rw [hlength, hsplit] at hj
      exact Nat.le_of_mul_le_mul_right hj (by decide)
    rw [hdiv, hdiv, hentry, hfirst, Nat.mul_add_div (Nat.two_pow_pos _), Nat.div_eq_of_lt hless,
      Nat.mul_div_cancel_left _ (Nat.two_pow_pos _), Nat.add_zero]
  have hword : log2MachineWordSize ≤ log2KeccakSize := by decide
  have hrootHash : (p.sliced hasherType k log2KeccakSize hpos hlow).rootHash =
      rangeNode memory range := by
    rw [p.sliced_rootHash hasherType hpos hlow htarget,
      hp.reached_eq hword hlow (Nat.le_of_lt hk), hsame, rangeNode, hsize]
  have hlevels : (siblingsUpwards (p.sliced hasherType k log2KeccakSize hpos hlow)).length =
      k - log2KeccakSize := by
    rw [siblingsUpwards, List.length_map, List.length_range]
    rfl
  refine ⟨hrootHash, by rw [hlevels, hsize]; omega, ?_⟩
  -- the slice verifies, and the bits above the range do not matter
  have hverify := p.sliced_verify hasherType hpos hlow htarget
  rw [verify, decide_eq_true_eq] at hverify
  rw [← hrootHash, ← hverify, ← foldSiblings_upwards, entryNode, hfirst,
    ← foldSiblings_add hasherType j b, hlevels]
  have hindex : (p.sliced hasherType k log2KeccakSize hpos hlow).targetAddress.toNat /
      2 ^ (p.sliced hasherType k log2KeccakSize hpos hlow).log2TargetSize =
        2 ^ (k - log2KeccakSize) * b + j := by
    show (roundDown p.targetAddress log2KeccakSize).toNat / 2 ^ log2KeccakSize = _
    rw [toNat_roundDown, hp.targetAddress, Nat.shiftLeft_eq,
      Nat.mul_div_cancel _ (Nat.two_pow_pos _), Nat.shiftRight_eq_div_pow]
    exact hentry
  have htargetHash : (p.sliced hasherType k log2KeccakSize hpos hlow).targetHash =
      machineNode memory log2KeccakSize (2 ^ (k - log2KeccakSize) * b + j) := by
    show p.reached hasherType log2KeccakSize = _
    rw [hp.reached_eq hword (Nat.le_refl _) (by decide), Nat.shiftRight_eq_div_pow]
    exact congrArg (machineNode memory log2KeccakSize) hentry
  rw [hindex, htargetHash]

end Entry

/-! ### The answers of the server -/

section Answers

variable {server : Server} {memory : server.State → Nat → UInt8} {m m' : server.State}

/-- A proof that was decoded. -/
theorem Faithful.obtained_proof (hfaithful : Faithful server memory) {address log2Size : UInt64}
    {message : MerkleTreeProofMessage} {p : ProofType}
    (hcall : Obtained server (.getProof address log2Size) m message m')
    (hproof : getProtoMerkleTreeProof message = .ok p) :
    memory m' = memory m ∧ ProofOf (memory m) address log2Size.toNat p := by
  rcases hcall with ⟨r, hr, hok, rfl⟩
  rcases hr with hanswer | ⟨rfl, -⟩
  · rcases hfaithful.getProof _ _ _ _ _ hanswer hok with ⟨hmemory, p', hdecodes, hp⟩
    have hsame := hdecodes.complete
    rw [hproof, Except.ok.injEq] at hsame
    exact ⟨hmemory, hsame ▸ hp⟩
  · -- a message without content is not a proof
    have hpos := (checks_of_ok hproof).2.2.1
    cases hpos

/-- Some memory that was read. -/
theorem Faithful.obtained_memory (hfaithful : Faithful server memory) {address length : UInt64}
    {bytes : Bytes} (hcall : Obtained server (.readMemory address length) m bytes m')
    (hlength : bytes.length = length.toNat) :
    memory m' = memory m ∧ bytes = memoryBytes (memory m) address.toNat length.toNat := by
  rcases hcall with ⟨r, hr, hok, rfl⟩
  rcases hr with hanswer | ⟨rfl, rfl⟩
  · exact hfaithful.readMemory _ _ _ _ _ hanswer hok
  · have hzero : length.toNat = 0 := hlength.symm
    rw [hzero]
    exact ⟨rfl, rfl⟩

/-- The root hash. -/
theorem Faithful.obtained_root (hfaithful : Faithful server memory) {bytes : Bytes}
    {hash : HashType} (hcall : Obtained server .getRootHash m bytes m')
    (hhash : getProtoHash bytes = .ok hash) :
    memory m' = memory m ∧ hash = machineRoot (memory m) := by
  rcases hcall with ⟨r, hr, hok, rfl⟩
  rcases hr with hanswer | ⟨rfl, -⟩
  · rcases hfaithful.getRootHash _ _ _ hanswer hok with ⟨hmemory, hbody⟩
    rw [hbody, getProtoHash_bytes, Except.ok.injEq] at hhash
    exact ⟨hmemory, hhash.symm⟩
  · cases hhash

omit [Keccak] in
/-- There are no more entries than fit into the data. -/
theorem countEntries_le (n entryLength : Nat) (data : Bytes) :
    countEntries entryLength n data * entryLength ≤ data.length := by
  induction n generalizing data with
  | zero => simp [countEntries]
  | succ n ih =>
      rw [countEntries]
      by_cases hshort : data.length < entryLength
      · simp [hshort]
      · by_cases hnull : isNull (data.take entryLength) = true
        · simp [hnull]
        · have hrest := ih (data.drop entryLength)
          rw [List.length_drop] at hrest
          rw [if_neg hshort, if_neg hnull, Nat.succ_mul]
          omega

omit [Keccak] in
/-- The bytes of an entry. -/
theorem memoryBytes_entry {f : Nat → UInt8} {address n offset size : Nat}
    (hfits : offset + size ≤ n) :
    ((memoryBytes f address n).drop offset).take size = memoryBytes f (address + offset) size := by
  refine List.ext_getElem ?_ fun i hi hi' => ?_
  · simp [memoryBytes]
    omega
  · simp [memoryBytes, Nat.add_assoc]

variable {range : MemoryRangeDescriptionType} {hashes : Bytes} {entry : Nat}
  {keccaks : List KeccakType}

/-- The hashes of the entries of a range. -/
theorem keccaks_proved (hfaithful : Faithful server memory) (hrange : RangeKept range)
    (hhashes : hashes = memoryBytes (memory m) range.start.toNat range.length.toNat)
    (hfits : (entry + keccaks.length) * keccakSize ≤ range.length.toNat)
    (h : Keccaks server range hashes entry m keccaks m') :
    memory m' = memory m ∧ ∀ j hash, keccaks[j]? = some hash →
      EntryProved (memory m) range (entry + j) hash := by
  induction h with
  | nil => exact ⟨rfl, fun j hash hj => by simp at hj⟩
  | @cons entry m m₁ m' keccak message proof sliced rest hbytes hcall hproof hsliced hrest ih =>
      rw [List.length_cons] at hfits
      have hnext : entry + 1 + rest.length = entry + (rest.length + 1) := by omega
      rcases hfaithful.obtained_proof hcall hproof with ⟨hmemory, hp⟩
      rcases ih (hmemory.symm ▸ hhashes) (hnext ▸ hfits) with ⟨hmemory', hall⟩
      refine ⟨hmemory'.trans hmemory, fun j hash hj => ?_⟩
      cases j with
      | zero =>
          rw [List.getElem?_cons_zero, Option.some.injEq] at hj
          subst hj
          have hone : (entry + 1) * keccakSize ≤ range.length.toNat :=
            Nat.le_trans (Nat.mul_le_mul_right _ (by omega)) hfits
          have haddress : (range.start + UInt64.ofNat (entry * keccakSize)).toNat =
              range.start.toNat + entry * keccakSize := by
            have hend := hrange.fits
            rw [Nat.add_mul, Nat.one_mul] at hone
            have hkeccak : keccakSize = 32 := rfl
            rw [UInt64.toNat_add, UInt64.toNat_ofNat', Nat.mod_eq_of_lt (a := entry * keccakSize)
              (by omega), Nat.mod_eq_of_lt (by omega)]
          have hsize : (UInt64.ofNat log2KeccakSize).toNat = log2KeccakSize := rfl
          rw [hsize] at hp
          rcases fold_slice hrange hp haddress hone hsliced with ⟨hroot, hlevels, hfold⟩
          refine ⟨hone, ?_, hroot, hlevels, hfold⟩
          rw [← hbytes, hhashes]
          exact memoryBytes_entry (by rwa [Nat.add_mul, Nat.one_mul] at hone)
      | succ j =>
          have hsum : entry + (j + 1) = entry + 1 + j := by omega
          rw [hsum, ← hmemory]
          exact hall j hash hj

/-- The records of a hashes range: the hash of the range, and its entries. -/
structure RangeProved (memory : Nat → UInt8) (range : MemoryRangeDescriptionType) (target : HashType)
    (keccaks : List KeccakType) : Prop where
  target : target = rangeNode memory range
  entries : ∀ (j : Nat) hash, keccaks[j]? = some hash → EntryProved memory range j hash

theorem collected_proved (hfaithful : Faithful server memory) (hrange : RangeKept range)
    {proof : ProofType} (h : Collected server range m proof keccaks m') :
    memory m' = memory m ∧ RangeProved (memory m) range proof.targetHash keccaks := by
  rcases h.range with ⟨m₁, m₂, message, hashes, hcall, hproof, hread, hlength, hcount, hkeccaks⟩
  rcases hfaithful.obtained_proof hcall hproof with ⟨hmemory₁, hp⟩
  rcases hfaithful.obtained_memory hread hlength with ⟨hmemory₂, hhashes⟩
  have hfits : (0 + keccaks.length) * keccakSize ≤ range.length.toNat := by
    have hle : countNullTerminatedEntries hashes keccakSize * keccakSize ≤ hashes.length :=
      countEntries_le hashes.length keccakSize hashes
    rw [hcount, hlength, hrange.length] at hle
    rwa [Nat.zero_add]
  rw [hrange.start, hrange.length, hmemory₁] at hhashes
  have hsame : memory m₂ = memory m := hmemory₂.trans hmemory₁
  rcases keccaks_proved hfaithful hrange (hsame.symm ▸ hhashes) hfits hkeccaks with ⟨hmemory, hall⟩
  rw [hsame] at hmemory hall
  refine ⟨hmemory, hp.targetHash, fun j hash hj => ?_⟩
  have hentry := hall j hash hj
  rwa [Nat.zero_add] at hentry

end Answers

/-- The records of an accepted input: they are about one state of the machine. -/
structure InputProved (memory : Nat → UInt8) (ranges : MemoryRangesType) (hash : HashType)
    (data : AcceptedDataType) : Prop where
  root : hash = machineRoot memory
  vouchers : RangeProved memory ranges.voucherHashes data.voucherHashesInMachine.targetHash
    (data.vouchers.filterMap VoucherType.hash)
  notices : RangeProved memory ranges.noticeHashes data.noticeHashesInMachine.targetHash
    (data.notices.filterMap NoticeType.hash)

theorem gathered_proved {server : Server} {memory : server.State → Nat → UInt8}
    (hfaithful : Faithful server memory) {ranges : MemoryRangesType} {hash : HashType}
    {data : AcceptedDataType} (hvouchers : RangeKept ranges.voucherHashes)
    (hnotices : RangeKept ranges.noticeHashes) (h : Gathered server ranges hash data) :
    ∃ m, InputProved (memory m) ranges hash data := by
  rcases h with ⟨m, m₁, m₂, m₃, bytes, vouchers, notices, hv, hvmap, hn, hnmap, hroot, hhash⟩
  rcases collected_proved hfaithful hvouchers hv with ⟨hm₁, hvproved⟩
  rcases collected_proved hfaithful hnotices hn with ⟨hm₂, hnproved⟩
  rcases hfaithful.obtained_root hroot hhash with ⟨-, hmachine⟩
  have hfilter : ∀ {β : Type} {f : β → Option KeccakType} {outputs : List β}
      {keccaks : List KeccakType}, outputs.map f = keccaks.map some →
        outputs.filterMap f = keccaks := by
    intro β f outputs keccaks hmap
    have hsome : (outputs.map f).filterMap id = (keccaks.map some).filterMap id := by rw [hmap]
    simpa [List.filterMap_map] using hsome
  refine ⟨m, ?_, ?_, ?_⟩
  · rw [hmachine, hm₂, hm₁]
  · rw [hfilter hvmap]
    exact hvproved
  · rw [hfilter hnmap, ← hm₁]
    exact hnproved

end ServerManager
