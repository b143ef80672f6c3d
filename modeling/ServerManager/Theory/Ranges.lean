import ServerManager.Core.StartSession
import ServerManager.Theory.Calls

/-!
# Memory Ranges

What `check_rollup_config` says about the memory ranges that it accepts. The
length of each is a power of two and its start a multiple of the length, so a
range does not wrap around, and an offset below the length can be added to the
start. Nothing is said about how long a range is: a range of one byte is as good
as any.

The other half of the arithmetic is about headers. The length of a payload is a
number of 32 bytes, of which the manager reads the last eight after it has
checked that the others are zero.

## Main definitions

* `InRange`: All addresses of an access are in a range.
* `CheckedRange`, `CheckedRanges`: What was checked of a range, and of all of them.
* `bigEndian`: The number that some bytes stand for.
* `Accepts`: A configuration passes the check and leaves some ranges.

## Theorems

* `CheckedRange.fits`: A range does not wrap around.
* `CheckedRange.prefix_inRange`, `CheckedRange.rest_inRange`: A header and what
  follows it.
* `checkedRanges_of_accepts`: Accepted ranges were checked.
* `getPayloadLength_cases`: The length in a header.
-/

namespace ServerManager

open Coroutine

/-- All addresses of an access are in a range. -/
def InRange (range : MemoryRangeDescriptionType) (address : UInt64) (length : Nat) : Prop :=
  ∀ a, address.toNat ≤ a → a < address.toNat + length →
    range.start.toNat ≤ a ∧ a < range.start.toNat + range.length.toNat

/-- What `check_memory_range_config` makes sure of. -/
structure CheckedRange (range : MemoryRangeDescriptionType) : Prop where
  start : range.config.start = range.start
  length : range.config.length = range.length
  power : isPowerOfTwo range.length = true
  aligned : range.start = (range.start >>> ilog2 range.length) <<< ilog2 range.length

/-- The length of a checked range is a power of two. -/
theorem isPowerOfTwo_eq {value : UInt64} (hvalue : isPowerOfTwo value = true) :
    ∃ k, k < 64 ∧ value.toNat = 2 ^ k := by
  rw [isPowerOfTwo, Bool.and_eq_true, decide_eq_true_eq, beq_iff_eq] at hvalue
  have hpos : value.toNat ≠ 0 := by
    have hlt := UInt64.lt_iff_toNat_lt.mp hvalue.1
    have hzero : (0 : UInt64).toNat = 0 := rfl
    omega
  have hone : (1 : UInt64) ≤ value := by
    rw [UInt64.le_iff_toNat_le]
    exact Nat.pos_of_ne_zero hpos
  have hmask : value.toNat &&& (value.toNat - 1) = 0 := by
    have hand := congrArg UInt64.toNat hvalue.2
    rw [UInt64.toNat_and, UInt64.toNat_sub_of_le _ _ hone] at hand
    exact hand
  rcases (Nat.and_sub_one_eq_zero_iff_isPowerOfTwo hpos).mp hmask with ⟨k, hk⟩
  refine ⟨k, ?_, hk⟩
  have hbound := value.toNat_lt
  rw [hk] at hbound
  exact (Nat.pow_lt_pow_iff_right (by decide)).mp hbound

namespace CheckedRange

variable {range : MemoryRangeDescriptionType} (hrange : CheckedRange range)

include hrange

/-- A range does not wrap around. -/
theorem fits : range.start.toNat + range.length.toNat ≤ 2 ^ 64 := by
  rcases isPowerOfTwo_eq hrange.power with ⟨k, hk, hlength⟩
  have hlog : (ilog2 range.length).toNat % 64 = k := by
    rw [ilog2, hlength, Nat.log2_two_pow, UInt64.toNat_ofNat_of_lt' (Nat.lt_of_lt_of_le hk (by decide))]
    exact Nat.mod_eq_of_lt hk
  have hstart := congrArg UInt64.toNat hrange.aligned
  rw [UInt64.toNat_shiftLeft, UInt64.toNat_shiftRight, hlog, Nat.shiftRight_eq_div_pow,
    Nat.shiftLeft_eq] at hstart
  -- The start is a multiple of the length below a larger power of two.
  have hle : range.start.toNat / 2 ^ k * 2 ^ k ≤ range.start.toNat := Nat.div_mul_le_self _ _
  rw [Nat.mod_eq_of_lt (Nat.lt_of_le_of_lt hle range.start.toNat_lt)] at hstart
  have hsplit : (2 : Nat) ^ 64 = 2 ^ (64 - k) * 2 ^ k := by
    rw [← Nat.pow_add]
    congr 1
    omega
  have hquotient : range.start.toNat / 2 ^ k < 2 ^ (64 - k) := by
    rw [Nat.div_lt_iff_lt_mul (Nat.two_pow_pos k), ← hsplit]
    exact range.start.toNat_lt
  rw [hlength, hstart, hsplit, ← Nat.succ_mul]
  exact Nat.mul_le_mul_right _ hquotient

/-- An access to the first bytes of a range. -/
theorem prefix_inRange {n : Nat} (hn : n ≤ range.length.toNat) :
    InRange range range.config.start n := by
  rw [hrange.start]
  intro a hlow hhigh
  exact ⟨hlow, by omega⟩

/-- An access to some of what follows the first bytes. -/
theorem rest_inRange {offset length : UInt64} (hoffset : offset ≤ range.length)
    (hlength : ¬ length > range.length - offset) :
    InRange range (range.config.start + offset) length.toNat := by
  rw [hrange.start]
  rw [gt_iff_lt, UInt64.lt_iff_toNat_lt, UInt64.toNat_sub_of_le _ _ hoffset] at hlength
  rw [UInt64.le_iff_toNat_le] at hoffset
  have hfits := hrange.fits
  intro a hlow hhigh
  rw [UInt64.toNat_add] at hlow hhigh
  rcases Nat.lt_or_ge (range.start.toNat + offset.toNat) (2 ^ 64) with hlt | hge
  · rw [Nat.mod_eq_of_lt hlt] at hlow hhigh
    omega
  · -- The offset is the whole range, and nothing is left to read.
    omega

end CheckedRange

/-- An access to the first bytes that are not all there. -/
theorem not_inRange {range : MemoryRangeDescriptionType} {n : Nat}
    (hstart : range.config.start = range.start) (hn : range.length.toNat < n) :
    ¬ InRange range range.config.start n := by
  intro hin
  rw [hstart] at hin
  have hlast := hin (range.start.toNat + range.length.toNat) (Nat.le_add_right _ _)
    (Nat.add_lt_add_left hn _)
  omega

/-- All ranges of a session were checked. -/
structure CheckedRanges (ranges : MemoryRangesType) : Prop where
  rxBuffer : CheckedRange ranges.rxBuffer
  txBuffer : CheckedRange ranges.txBuffer
  inputMetadata : CheckedRange ranges.inputMetadata
  voucherHashes : CheckedRange ranges.voucherHashes
  noticeHashes : CheckedRange ranges.noticeHashes

/-- A configuration passes the check, which leaves these ranges in the session. -/
def Accepts (ref : Nat) (config : MachineConfig) (ranges : MemoryRangesType) : Prop :=
  ∃ s s' session, (checkRollupConfig ref config).seg s = (.done (), s') ∧
    s'.session = some (ref, session) ∧ session.memoryRange = ranges

/-- What the check of one range comes to. -/
theorem checkMemoryRangeConfig_done {name : String} {config : MemoryRangeConfig}
    {range : MemoryRangeDescriptionType} {s s' : HandlerContext}
    (hseg : (checkMemoryRangeConfig name config).seg s = (.done range, s')) :
    CheckedRange range ∧ s' = s := by
  unfold checkMemoryRangeConfig throwFinishError at hseg
  dsimp only at hseg
  split_ifs at hseg with _ hpower haligned
  · cases hseg
  · cases hseg
  · cases hseg
  · cases hseg
    rw [Bool.not_eq_true', Bool.not_eq_false] at hpower
    exact ⟨⟨rfl, rfl, hpower, not_not.mp haligned⟩, rfl⟩

/-- A write of the session that went through. -/
theorem modifySession_done {ref : Nat} {f : SessionType → SessionType} {s s' : HandlerContext}
    (hseg : (modifySession ref f).seg s = (.done (), s')) :
    ∃ session, s' = { s with session := some (ref, f session) } := by
  simp only [modifySession, Prog.seg] at hseg
  split at hseg
  · next generation session _ =>
      split at hseg
      · next heq =>
          subst heq
          cases hseg
          exact ⟨session, rfl⟩
      · cases hseg
  · cases hseg

theorem checkedRanges_of_accepts {ref : Nat} {config : MachineConfig} {ranges : MemoryRangesType}
    (haccepts : Accepts ref config ranges) : CheckedRanges ranges := by
  rcases haccepts with ⟨s, s', session, hseg, hsession, rfl⟩
  unfold checkRollupConfig at hseg
  split at hseg
  · cases hseg
  · dsimp only at hseg
    split at hseg
    · cases hseg
    · rcases Prog.seg_bind_done hseg with ⟨tx, s₁, htx, hseg⟩
      rcases Prog.seg_bind_done hseg with ⟨rx, s₂, hrx, hseg⟩
      rcases Prog.seg_bind_done hseg with ⟨metadata, s₃, hmetadata, hseg⟩
      rcases Prog.seg_bind_done hseg with ⟨vouchers, s₄, hvouchers, hseg⟩
      rcases Prog.seg_bind_done hseg with ⟨notices, s₅, hnotices, hseg⟩
      rcases modifySession_done hseg with ⟨session', rfl⟩
      cases hsession
      exact ⟨(checkMemoryRangeConfig_done hrx).1, (checkMemoryRangeConfig_done htx).1,
        (checkMemoryRangeConfig_done hmetadata).1, (checkMemoryRangeConfig_done hvouchers).1,
        (checkMemoryRangeConfig_done hnotices).1⟩

/-! ### What is written -/

theorem copyAt_length {buffer data : Bytes} {offset : Nat}
    (hfits : offset + data.length ≤ buffer.length) :
    (copyAt buffer offset data).length = buffer.length := by
  rw [copyAt, List.length_append, List.length_append, List.length_take, List.length_drop]
  omega

theorem endianStore_length (value : UInt64) : (endianStore value).length = 8 := by
  rw [endianStore, List.length_map, List.length_range]

theorem evmAbiString_length (payload : Bytes) :
    (evmAbiString payload).length = evmAbiStringHeaderLength + payload.length := by
  have hsmall : evmAbiOffsetLength - 8 + 8 ≤ evmAbiStringHeaderLength := by decide
  have hlarge : evmAbiOffsetLength + evmAbiLengthLength - 8 + 8 ≤ evmAbiStringHeaderLength := by
    decide
  unfold evmAbiString
  dsimp only
  rw [List.length_append, copyAt_length, copyAt_length, List.length_replicate]
  · rw [endianStore_length, List.length_replicate]
    exact hsmall
  · rw [copyAt_length, endianStore_length, List.length_replicate]
    · exact hlarge
    · rw [endianStore_length, List.length_replicate]
      exact hsmall

theorem evmAbiEncodedInputMetadata_length (metadata : InputMetadataType) :
    (evmAbiEncodedInputMetadata metadata).length = evmAbiInputMetadataLength := by
  have hcopy : ∀ (buffer : Bytes) (offset : Nat) (value : UInt64),
      buffer.length = evmAbiInputMetadataLength → offset + 8 ≤ evmAbiInputMetadataLength →
      (copyAt buffer offset (endianStore value)).length = evmAbiInputMetadataLength := by
    intro buffer offset value hbuffer hoffset
    rw [copyAt_length, hbuffer]
    rw [endianStore_length, hbuffer]
    exact hoffset
  have hsender : (copyAt (List.replicate evmAbiInputMetadataLength 0)
      (evmAbiAddressLength - evmAddressLength) metadata.msgSender.1).length =
        evmAbiInputMetadataLength := by
    rw [copyAt_length, List.length_replicate]
    rw [List.length_replicate, metadata.msgSender.2]
    decide
  unfold evmAbiEncodedInputMetadata
  dsimp only
  refine hcopy _ _ _ ?_ (by decide)
  refine hcopy _ _ _ ?_ (by decide)
  refine hcopy _ _ _ ?_ (by decide)
  exact hcopy _ _ _ hsender (by decide)

/-! ### Headers -/

/-- The number that some bytes stand for, the first of them being the highest. -/
def bigEndian (bytes : Bytes) : Nat :=
  bytes.foldl (fun n byte => n * 256 + byte.toNat) 0

/-- One more byte. -/
theorem toNat_shiftByte {value : UInt64} (byte : UInt8) (hvalue : value.toNat < 2 ^ 56) :
    ((value <<< 8) ||| byte.toUInt64).toNat = value.toNat * 256 + byte.toNat := by
  have hbyte := byte.toNat_lt
  have height : (8 : UInt64).toNat % 64 = 8 := rfl
  rw [UInt64.toNat_or, UInt64.toNat_shiftLeft, height, UInt8.toNat_toUInt64, Nat.shiftLeft_eq,
    Nat.mod_eq_of_lt (by omega), ← Nat.shiftLeft_eq, ← Nat.shiftLeft_add_eq_or_of_lt hbyte,
    Nat.shiftLeft_eq]

/-- Eight bytes fit in 64 bits. -/
theorem foldl_endianLoad (bytes : Bytes) (value : UInt64) (hlength : bytes.length ≤ 8)
    (hvalue : value.toNat < 256 ^ (8 - bytes.length)) :
    (bytes.foldl (fun (value : UInt64) byte => (value <<< 8) ||| byte.toUInt64) value).toNat =
      bytes.foldl (fun n byte => n * 256 + byte.toNat) value.toNat := by
  induction bytes generalizing value with
  | nil => rfl
  | cons byte bytes ih =>
      rw [List.length_cons] at hlength hvalue
      have hsmall : value.toNat < 2 ^ 56 := by
        have hle : 256 ^ (8 - (bytes.length + 1)) ≤ 256 ^ 7 :=
          Nat.pow_le_pow_right (by decide) (by omega)
        exact Nat.lt_of_lt_of_le hvalue hle
      have hstep := toNat_shiftByte byte hsmall
      rw [List.foldl_cons, List.foldl_cons, ih _ (by omega), hstep]
      rw [hstep]
      have hpow : 256 ^ (8 - bytes.length) = 256 ^ (8 - (bytes.length + 1)) * 256 := by
        rw [← Nat.pow_succ]
        congr 1
        omega
      have hbyte := byte.toNat_lt
      omega

/-- Zeros in front change nothing. -/
theorem bigEndian_append {bytes : Bytes} (rest : Bytes) (hnull : isNull bytes = true) :
    bigEndian (bytes ++ rest) = bigEndian rest := by
  have hzero : bytes.foldl (fun n byte => n * 256 + byte.toNat) 0 = 0 := by
    induction bytes with
    | nil => rfl
    | cons byte bytes ih =>
        rw [isNull, List.all_cons, Bool.and_eq_true, decide_eq_true_eq] at hnull
        rw [List.foldl_cons, hnull.1]
        exact ih hnull.2
  rw [bigEndian, List.foldl_append, hzero, bigEndian]

/-- The length in a header is refused, or it is the number that the bytes stand
    for. -/
theorem getPayloadLength_cases (ref : Nat) (bytes : Bytes) (hlength : 8 ≤ bytes.length) :
    (∃ status, getPayloadLength ref bytes = .throw (.taintSession ref status)) ∨
      ∃ n : UInt64, getPayloadLength ref bytes = .pure n ∧ n.toNat = bigEndian bytes := by
  unfold getPayloadLength
  split
  · next hnull =>
      refine Or.inr ⟨_, rfl, ?_⟩
      have hlast : (bytes.drop (bytes.length - 8)).length = 8 := by
        rw [List.length_drop]
        omega
      have hload := foldl_endianLoad (bytes.drop (bytes.length - 8)) 0 (Nat.le_of_eq hlast)
        (Nat.pow_pos (by decide))
      have hsplit := bigEndian_append (bytes.drop (bytes.length - 8)) hnull
      rw [List.take_append_drop] at hsplit
      rw [hsplit]
      exact hload
  · exact Or.inl ⟨_, rfl⟩

end ServerManager
