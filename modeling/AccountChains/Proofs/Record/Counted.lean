import AccountChains.Proofs.Record.Form

/-!
Contract: a counted block is read from more bytes than it is written as.

A record has a block behind the count of its bytes. Whoever reads it cuts off as many
bytes as the count says and takes the block off their front. What the count covers
beyond the block is ignored, so that a block with any surplus reads as the block, and
what is written again is shorter than what was read. It is the same exactly if the count
is that of the block. Bytes are refused if they are fewer than counted, or if no block
stands in front of those that are counted.

Owns: the bytes that read as a counted block or as a parked block, the bytes that are
refused, and when both sides agree. Does not own: records without a count.
-/

namespace AccountChains

/-- The count in front of the bytes. -/
def Bytes.count (bytes : Bytes) : Nat := ofLittleEndian (bytes.take 8)

/-- The bytes that the count covers, as far as they are there. -/
def Bytes.covered (bytes : Bytes) : Bytes := (bytes.drop 8).take bytes.count

namespace Block

/-- A block behind a count that covers the block and some surplus. -/
def counted (block : Block) (surplus : Bytes) : Bytes :=
  Bytes.littleEndian 8 (block.toTypedBytes.length + surplus.length)
    ++ (block.toTypedBytes ++ surplus)

/-- A 64-bit count can say how many bytes a block and its surplus have. -/
def CountFits (block : Block) (surplus : Bytes) : Prop :=
  block.toTypedBytes.length + surplus.length < UInt64.size

/-- There are fewer bytes than counted, or those that are counted begin with no block. -/
inductive Uncounted (bytes : Bytes) : RecordError → Prop where
  | cutOff (short : bytes.length < 8 + bytes.count) : Uncounted bytes .unexpectedEnd
  | refused {cause : BlockDecodeError} (long : 8 + bytes.count ≤ bytes.length)
      (refused : Refused bytes.covered cause) : Uncounted bytes (.invalidBlock cause)

end Block

namespace ParkedBlock

/-- What stands behind the block. -/
def trailer (parked : ParkedBlock) : Bytes :=
  parked.account.toBytes ++ (Bytes.littleEndian 8 parked.modified.seconds.toNat
    ++ Bytes.littleEndian 4 parked.verified.code)

def trailerSegments : List Segment := [.plain 32, .plain 8, .tag 4]

/-- The block is refused, or what follows the bytes that are counted is no trailer. -/
inductive Faulty (bytes : Bytes) : RecordError → Prop where
  | block {cause : RecordError} (uncounted : Block.Uncounted bytes cause) : Faulty bytes cause
  | trailer {cause : RecordError} (long : 8 + bytes.count ≤ bytes.length)
      (complete : Block.Complete bytes.covered)
      (faulty : Segment.Faulty trailerSegments (bytes.drop (8 + bytes.count)) cause) :
      Faulty bytes cause

end ParkedBlock

namespace Codec

open Block (CountFits Uncounted)

variable {α : Type}

/-! ## Counted blocks -/

section Counting

variable {bytes rest : Bytes} {value : Block} {surplus : Bytes}

theorem count_lt (bytes : Bytes) : bytes.count < UInt64.size := by
  have small := Bytes.ofLittleEndian_lt (bytes.take 8)
  have width : (bytes.take 8).length ≤ 8 := List.length_take_le 8 bytes
  rw [Bytes.span_eq_pow] at small
  exact Nat.lt_of_lt_of_le small
    (Nat.pow_le_pow_right (by decide) (Nat.mul_le_mul_left 8 width))

theorem decode_uint64 (long : ¬ bytes.length < 8) :
    uint64.decode bytes = .ok (.ofNat bytes.count, bytes.drop 8) := by
  have small : bytes.count % Bytes.span 8 = bytes.count := Nat.mod_eq_of_lt (count_lt bytes)
  simp only [uint64, rename, refine, number, fixed, if_neg long, bind, Except.bind, pure,
    Except.pure]
  rw [← Bytes.count, small]

/-- Of the bytes that are counted only those in front decide. -/
theorem decode_block (bytes : Bytes) : block.decode bytes
    = if bytes.length < 8 + bytes.count then .error .unexpectedEnd
      else match Block.ofTypedBytes bytes.covered with
        | .ok (value, _) => .ok (value, bytes.drop (8 + bytes.count))
        | .error cause => .error (.invalidBlock cause) := by
  have number : (UInt64.ofNat bytes.count).toNat = bytes.count := by
    rw [UInt64.toNat_ofNat']
    exact Nat.mod_eq_of_lt (count_lt bytes)
  by_cases few : bytes.length < 8
  · have cutOff : uint64.decode bytes = .error .unexpectedEnd := by
      simp only [uint64, rename, refine, Codec.number, fixed, if_pos few, bind, Except.bind]
    rw [if_pos (by omega)]
    simp only [block, refine, counted, cutOff, bind, Except.bind]
  · simp only [block, refine, counted, decode_uint64 few, number, List.length_drop, bind,
      Except.bind, pure, Except.pure]
    by_cases short : bytes.length < 8 + bytes.count
    · rw [dif_pos (by omega), if_pos short]
    · rw [dif_neg (by omega), if_neg short, List.drop_drop]
      simp only [Bytes.covered]
      cases Block.ofTypedBytes ((bytes.drop 8).take bytes.count) with
      | ok result => rfl
      | error cause => rfl

/-- What is read as a counted block has a count in front, then the block, then the surplus. -/
theorem counted_of_decode (decoded : block.decode bytes = .ok (value, rest)) :
    ∃ surplus, CountFits value surplus ∧ bytes = value.counted surplus ++ rest := by
  rw [decode_block] at decoded
  split at decoded
  · cases decoded
  · next long =>
      split at decoded
      · next found used isRead =>
          obtain ⟨rfl, rfl⟩ := Prod.mk.inj (Except.ok.inj decoded)
          obtain ⟨-, front⟩ := Block.take_of_ofTypedBytes isRead
          have parts : found.toTypedBytes ++ bytes.covered.drop used = bytes.covered := by
            rw [← front, List.take_append_drop]
          have number : found.toTypedBytes.length + (bytes.covered.drop used).length
              = bytes.count := by
            rw [← List.length_append, parts, Bytes.covered, List.length_take, List.length_drop]
            omega
          have digits : Bytes.littleEndian 8 bytes.count = bytes.take 8 := by
            have written := Bytes.littleEndian_ofLittleEndian (bytes.take 8)
            rwa [List.length_take, Nat.min_eq_left (by omega)] at written
          refine ⟨bytes.covered.drop used, ?_, ?_⟩
          · rw [CountFits, number]
            exact count_lt bytes
          · rw [Block.counted, number, parts, digits, Bytes.covered, List.append_assoc,
              ← List.drop_drop, List.take_append_drop, List.take_append_drop]
      · cases decoded

section Written

variable (fits : CountFits value surplus)

include fits

theorem count_counted (rest : Bytes) :
    (value.counted surplus ++ rest).count = value.toTypedBytes.length + surplus.length := by
  rw [Bytes.count, Block.counted, List.append_assoc,
    List.take_left' (Bytes.length_littleEndian 8 _), Bytes.ofLittleEndian_littleEndian]
  exact Nat.mod_eq_of_lt fits

/-- A block is read in front of whatever the count covers behind it. -/
theorem decode_counted (rest : Bytes) :
    block.decode (value.counted surplus ++ rest) = .ok (value, rest) := by
  have number := count_counted fits rest
  have width : (value.counted surplus).length
      = 8 + (value.toTypedBytes.length + surplus.length) := by
    simp [Block.counted]
  have covered : Bytes.covered (value.counted surplus ++ rest) = value.toTypedBytes ++ surplus := by
    rw [Bytes.covered, number, Block.counted, List.append_assoc,
      List.drop_left' (Bytes.length_littleEndian 8 _), ← List.length_append, List.take_left]
  rw [decode_block, number, if_neg (by simp only [List.length_append]; omega), covered,
    Block.ofTypedBytes_toTypedBytes, ← width, List.drop_left]

end Written

theorem decode_block_eq_error_iff {cause : RecordError} :
    block.decode bytes = .error cause ↔ Uncounted bytes cause := by
  rw [decode_block]
  constructor
  · intro fails
    split at fails
    · next short =>
        obtain rfl := Except.error.inj fails
        exact .cutOff short
    · next long =>
        split at fails
        · cases fails
        · next reason isRead =>
            obtain rfl := Except.error.inj fails
            refine .refused (Nat.not_lt.mp long) ?_
            rcases Block.refused_or_complete bytes.covered with ⟨other, refused⟩ | complete
            · rw [Block.ofTypedBytes_of_refused refused] at isRead
              exact Except.error.inj isRead ▸ refused
            · obtain ⟨value, used, accepted⟩ := Block.ofTypedBytes_of_complete complete
              exact nomatch accepted.symm.trans isRead
  · intro uncounted
    cases uncounted with
    | cutOff short => rw [if_pos short]
    | refused long refused =>
        rw [if_neg (Nat.not_lt.mpr long), Block.ofTypedBytes_of_refused refused]

theorem decode_block_of_complete (long : 8 + bytes.count ≤ bytes.length)
    (complete : Block.Complete bytes.covered) :
    ∃ value, block.decode bytes = .ok (value, bytes.drop (8 + bytes.count)) := by
  obtain ⟨value, used, accepted⟩ := Block.ofTypedBytes_of_complete complete
  exact ⟨value, by rw [decode_block, if_neg (Nat.not_lt.mpr long), accepted]⟩

/-- Bytes that read as a counted block are as many as counted and have a block in front. -/
theorem complete_of_decode (decoded : block.decode bytes = .ok (value, rest)) :
    8 + bytes.count ≤ bytes.length ∧ Block.Complete bytes.covered := by
  rw [decode_block] at decoded
  split at decoded
  · cases decoded
  · next long =>
      refine ⟨Nat.not_lt.mp long, ?_⟩
      rcases Block.refused_or_complete bytes.covered with ⟨cause, refused⟩ | complete
      · rw [Block.ofTypedBytes_of_refused refused] at decoded
        cases decoded
      · exact complete

end Counting

/-! ## Parked blocks -/

/-- The fields of a parked block that follow the block. -/
def trailing : Codec (Account × Timestamp × Verification) :=
  identifier.pair (timestamp.pair verification)

theorem canonical_trailing : trailing.Canonical :=
  canonical_identifier.pair (canonical_timestamp.pair canonical_verification)

theorem shaped_verification : verification.Shaped [.tag 4] := by
  refine shaped_variant fun number => ?_
  match number with
  | 0 | 1 | 2 | 3 => simp [Verification.ofCode?]
  | number + 4 => simp [Verification.ofCode?]

theorem shaped_trailing : trailing.Shaped ParkedBlock.trailerSegments :=
  shaped_identifier.pair (shaped_timestamp.pair shaped_verification)

theorem encode_trailing (value : ParkedBlock) :
    trailing.encode (value.account, value.modified, value.verified) = value.trailer := rfl

section Parked

variable {bytes rest : Bytes} {value : ParkedBlock}

theorem decode_parkedBlock (bytes : Bytes) : parkedBlock.decode bytes
    = match block.decode bytes with
      | .error cause => .error cause
      | .ok (found, behind) => (trailing.decode behind).map fun
        ((account, modified, verified), rest) => (⟨found, account, modified, verified⟩, rest) := by
  change ((block.pair trailing).rename _ _ _).decode bytes = _
  simp only [rename, refine, pair, bind, Except.bind, pure, Except.pure]
  cases block.decode bytes with
  | error cause => rfl
  | ok result =>
      dsimp only
      cases trailing.decode result.2 <;> rfl

theorem parkedBlock_reads_iff : parkedBlock.decode bytes = .ok (value, rest) ↔
    ∃ surplus, CountFits value.block surplus ∧
      bytes = value.block.counted surplus ++ (value.trailer ++ rest) := by
  rw [decode_parkedBlock]
  constructor
  · intro decoded
    split at decoded
    · cases decoded
    · next found behind blockDecoded =>
        cases trailed : trailing.decode behind with
        | error cause =>
            rw [trailed] at decoded
            cases decoded
        | ok result =>
            rw [trailed] at decoded
            obtain ⟨rfl, rfl⟩ := Prod.mk.inj (Except.ok.inj decoded)
            obtain ⟨surplus, fits, rfl⟩ := counted_of_decode blockDecoded
            refine ⟨surplus, fits, ?_⟩
            rw [canonical_trailing _ _ _ trailed, ← encode_trailing]
  · rintro ⟨surplus, fits, rfl⟩
    have trailed : trailing.decode (value.trailer ++ rest)
        = .ok ((value.account, value.modified, value.verified), rest) := by
      rw [← encode_trailing, trailing.decode_encode]
    simp only [decode_counted fits, trailed]
    rfl

theorem parkedBlock_refused_iff {cause : RecordError} :
    parkedBlock.decode bytes = .error cause ↔ ParkedBlock.Faulty bytes cause := by
  rw [decode_parkedBlock]
  constructor
  · intro fails
    split at fails
    · next reason blockDecoded =>
        obtain rfl := Except.error.inj fails
        exact .block (decode_block_eq_error_iff.mp blockDecoded)
    · next found behind blockDecoded =>
        obtain ⟨long, complete⟩ := complete_of_decode blockDecoded
        obtain ⟨other, again⟩ := decode_block_of_complete long complete
        obtain ⟨rfl, rfl⟩ := Prod.mk.inj (Except.ok.inj (again.symm.trans blockDecoded))
        refine .trailer long complete ((shaped_trailing.refused_iff _ _).mp ?_)
        cases trailed : trailing.decode (bytes.drop (8 + bytes.count)) with
        | error reason =>
            rw [trailed] at fails
            exact congrArg Except.error (Except.error.inj fails)
        | ok result =>
            rw [trailed] at fails
            cases fails
  · intro faulty
    cases faulty with
    | block uncounted => rw [decode_block_eq_error_iff.mpr uncounted]
    | trailer long complete faulty =>
        obtain ⟨found, decoded⟩ := decode_block_of_complete long complete
        simp only [decoded, shaped_trailing.refuses faulty]
        rfl

end Parked

/-! ## Written again -/

/-- These bytes are read as a value that begins with a counted block if they are its written form
with any surplus, and else they are refused. What was read is what is written again exactly if the
count is that of the block. -/
structure Lenient (codec : Codec α) (blockOf : α → Block) (trailer : α → Bytes)
    (Faulty : Bytes → RecordError → Prop) (bytes : Bytes) : Prop where
  reads_iff : ∀ value rest, codec.decode bytes = .ok (value, rest) ↔
    ∃ surplus, CountFits (blockOf value) surplus ∧
      bytes = (blockOf value).counted surplus ++ (trailer value ++ rest)
  refused_iff : ∀ cause, codec.decode bytes = .error cause ↔ Faulty bytes cause
  rewritten_iff : ∀ value rest, codec.decode bytes = .ok (value, rest) →
    (codec.encode value ++ rest = bytes ↔ bytes.count = (blockOf value).toTypedBytes.length)

theorem lenient_of_reads {codec : Codec α} {blockOf : α → Block} {trailer : α → Bytes}
    {Faulty : Bytes → RecordError → Prop} {bytes : Bytes}
    (written : ∀ value, codec.encode value = (blockOf value).counted [] ++ trailer value)
    (reads_iff : ∀ value rest, codec.decode bytes = .ok (value, rest) ↔
      ∃ surplus, CountFits (blockOf value) surplus ∧
        bytes = (blockOf value).counted surplus ++ (trailer value ++ rest))
    (refused_iff : ∀ cause, codec.decode bytes = .error cause ↔ Faulty bytes cause) :
    codec.Lenient blockOf trailer Faulty bytes where
  reads_iff := reads_iff
  refused_iff := refused_iff
  rewritten_iff value rest decoded := by
    obtain ⟨surplus, fits, rfl⟩ := (reads_iff _ _).mp decoded
    rw [written, List.append_assoc, count_counted fits]
    constructor
    · intro same
      have width := congrArg List.length (List.append_cancel_right same)
      simp only [Block.counted, List.length_append, Bytes.length_littleEndian,
        List.length_nil] at width
      omega
    · intro exact
      have none : surplus = [] := List.length_eq_zero_iff.mp (by omega)
      rw [none]

theorem encode_block_counted (value : Block) : block.encode value = value.counted [] := by
  rw [encode_block, Block.counted, List.append_nil]
  rfl

theorem encode_parkedBlock_counted (value : ParkedBlock) :
    parkedBlock.encode value = value.block.counted [] ++ value.trailer :=
  congrArg (· ++ value.trailer) (encode_block_counted value.block)

/-- Counted blocks, alone and in a parked block, are read leniently: with a surplus that the count
covers, and then what is written again is not what was read. -/
theorem counted_blocks_lenient (bytes : Bytes) :
    block.Lenient id (fun _ => []) Uncounted bytes ∧
      parkedBlock.Lenient ParkedBlock.block ParkedBlock.trailer ParkedBlock.Faulty bytes := by
  constructor
  · refine lenient_of_reads (fun value => ?_) (fun value rest => ?_) fun cause =>
      decode_block_eq_error_iff
    · rw [encode_block_counted, List.append_nil]
      rfl
    · refine ⟨counted_of_decode, ?_⟩
      rintro ⟨surplus, fits, rfl⟩
      exact decode_counted fits rest
  · refine lenient_of_reads (fun value => ?_) (fun value rest => parkedBlock_reads_iff)
      fun cause => parkedBlock_refused_iff
    exact encode_parkedBlock_counted value

/-! ## A block with a surplus -/

/-- A receive block, parked. -/
def sampleParked : ParkedBlock := ⟨Block.sampleReceive, .zero, .zero, .unknown⟩

/-- A count of one more than the block has lets a byte pass that is not written again. -/
theorem surplus_not_rewritten :
    block.decode (sampleParked.block.counted [0]) = .ok (sampleParked.block, []) ∧
      block.encode sampleParked.block ≠ sampleParked.block.counted [0] ∧
      parkedBlock.decode (sampleParked.block.counted [0] ++ sampleParked.trailer)
        = .ok (sampleParked, []) ∧
      parkedBlock.encode sampleParked
        ≠ sampleParked.block.counted [0] ++ sampleParked.trailer := by
  have fits : CountFits sampleParked.block [0] := by
    rw [CountFits, Block.length_toTypedBytes]
    decide
  have longer : sampleParked.block.counted [] ≠ sampleParked.block.counted [0] := by
    intro same
    simpa [Block.counted] using congrArg List.length same
  refine ⟨?_, ?_, ?_, ?_⟩
  · simpa only [List.append_nil] using decode_counted fits []
  · rw [encode_block_counted]
    exact longer
  · refine parkedBlock_reads_iff.mpr ⟨[0], fits, ?_⟩
    rw [List.append_nil]
  · rw [encode_parkedBlock_counted]
    exact fun same => longer (List.append_cancel_right same)

end Codec

end AccountChains
