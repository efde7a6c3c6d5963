import AccountChains.Proofs.Block.Parsing
import AccountChains.Record.Basic

/-!
Contract: the binary form of stored records is exact.

Of the bytes of a record, most mean something whatever they are. Only a tag may have a
number that names no variant, and only a truth value may be neither zero nor one. A
record is refused for the first part that is cut off or damaged, and for nothing else.
What is accepted begins with the written form of the value that it reads as: there is no
other way to write the same value.

Owns: the parts of a record with what can be wrong with them (`Segment`), and for every
record its fields and how any bytes read (`Codec.Exact`). Does not own: the wire form of a
block, which comes first in a stored block.
-/

namespace AccountChains

/-! ## Parts of a record -/

/-- A part of a record, as far as it decides which bytes are accepted. -/
inductive Segment where
  /-- So many bytes, all of which mean something. -/
  | plain (width : Nat)
  /-- The number of one of so many variants, in four bytes. -/
  | tag (variants : Nat)
  /-- A truth value, in one byte. -/
  | flag
deriving DecidableEq, Repr

namespace Segment

def width : Segment → Nat
  | .plain width => width
  | .tag _ => 4
  | .flag => 1

/-- What is wrong with the bytes of a part. -/
def damage? (bytes : Bytes) : Segment → Option RecordError
  | .plain _ => none
  | .tag variants =>
    let number := Bytes.ofLittleEndian bytes
    if number < variants then none else some (.invalidVariant number variants)
  | .flag =>
    let number := Bytes.ofLittleEndian bytes
    if number ≤ 1 then none else some (.invalidBool (.ofNat number))

/-- How many bytes a record has. -/
def extent : List Segment → Nat
  | [] => 0
  | segment :: rest => segment.width + extent rest

/-- What is wrong with the bytes of a record: the first part that is cut off or damaged. -/
def fault? : List Segment → Bytes → Option RecordError
  | [], _ => none
  | segment :: rest, bytes =>
    if bytes.length < segment.width then some .unexpectedEnd
    else (segment.damage? (bytes.take segment.width)).or (fault? rest (bytes.drop segment.width))

/-- The bytes are no record, and that is the cause. -/
def Faulty (segments : List Segment) (bytes : Bytes) (cause : RecordError) : Prop :=
  fault? segments bytes = some cause

theorem extent_append (first second : List Segment) :
    extent (first ++ second) = extent first + extent second := by
  induction first with
  | nil => exact (Nat.zero_add _).symm
  | cons segment rest inductionHypothesis =>
      rw [List.cons_append, extent, inductionHypothesis, extent, Nat.add_assoc]

theorem fault?_append (first second : List Segment) (bytes : Bytes) :
    fault? (first ++ second) bytes
      = (fault? first bytes).or (fault? second (bytes.drop (extent first))) := by
  induction first generalizing bytes with
  | nil => rfl
  | cons segment rest inductionHypothesis =>
      simp only [List.cons_append, fault?, extent]
      by_cases short : bytes.length < segment.width
      · simp only [if_pos short, Option.some_or]
      · simp only [if_neg short, inductionHypothesis, Option.or_assoc, List.drop_drop]

section Single

variable {segment : Segment} {bytes : Bytes}

theorem fault?_of_short (short : bytes.length < segment.width) :
    fault? [segment] bytes = some .unexpectedEnd := by
  rw [fault?, if_pos short]

theorem fault?_of_long (long : ¬ bytes.length < segment.width) :
    fault? [segment] bytes = segment.damage? (bytes.take segment.width) := by
  rw [fault?, if_neg long, fault?, Option.or_none]

end Single

end Segment

namespace Codec

open Segment

variable {α β : Type}

/-- A codec refuses bytes for what is wrong with their parts, and reads all others. -/
structure Shaped (codec : Codec α) (shape : List Segment) : Prop where
  refuses : ∀ {bytes cause}, fault? shape bytes = some cause → codec.decode bytes = .error cause
  accepts : ∀ {bytes}, fault? shape bytes = none →
    ∃ value, codec.decode bytes = .ok (value, bytes.drop (extent shape))

/-! ## Codecs of fields -/

/-- A codec of one part, if it refuses what is cut off, and else what is damaged. -/
theorem shaped_single {codec : Codec α} {segment : Segment}
    (short : ∀ {bytes : Bytes}, bytes.length < segment.width →
      codec.decode bytes = .error .unexpectedEnd)
    (damaged : ∀ {bytes : Bytes} {cause}, ¬ bytes.length < segment.width →
      segment.damage? (bytes.take segment.width) = some cause →
      codec.decode bytes = .error cause)
    (sound : ∀ {bytes : Bytes}, ¬ bytes.length < segment.width →
      segment.damage? (bytes.take segment.width) = none →
      ∃ value, codec.decode bytes = .ok (value, bytes.drop segment.width)) :
    codec.Shaped [segment] := by
  constructor
  case refuses =>
    intro bytes cause faulty
    by_cases isShort : bytes.length < segment.width
    · rw [fault?_of_short isShort] at faulty
      obtain rfl := Option.some.inj faulty
      exact short isShort
    · rw [fault?_of_long isShort] at faulty
      exact damaged isShort faulty
  case accepts =>
    intro bytes faultless
    by_cases isShort : bytes.length < segment.width
    · rw [fault?_of_short isShort] at faultless
      cases faultless
    · rw [fault?_of_long isShort] at faultless
      exact sound isShort faultless

theorem shaped_fixed {width : Nat} {toField : α → Bytes} {ofField : Bytes → α}
    {exact : ∀ value, (toField value).length = width}
    {inverse : ∀ value, ofField (toField value) = value} :
    (fixed width toField ofField exact inverse).Shaped [.plain width] := by
  refine shaped_single (fun short => if_pos short) (fun _ damaged => ?_)
    fun long _ => ⟨_, if_neg long⟩
  cases damaged

/-- A number that may be refused is a part of its own, if it is refused for what is wrong with
the part. -/
theorem shaped_number (segment : Segment) {toBase : α → Fin (Bytes.span segment.width)}
    {ofBase : Fin (Bytes.span segment.width) → Except RecordError α}
    {inverse : ∀ value, ofBase (toBase value) = .ok value}
    (refuses : ∀ {bytes cause word}, word.val = Bytes.ofLittleEndian bytes →
      segment.damage? bytes = some cause → ofBase word = .error cause)
    (accepts : ∀ {bytes word}, word.val = Bytes.ofLittleEndian bytes →
      segment.damage? bytes = none → ∃ value, ofBase word = .ok value) :
    ((number segment.width).refine toBase ofBase inverse).Shaped [segment] := by
  have decodes {bytes : Bytes} (long : ¬ bytes.length < segment.width) : ∃ word,
      (number segment.width).decode bytes = .ok (word, bytes.drop segment.width) ∧
        word.val = Bytes.ofLittleEndian (bytes.take segment.width) := by
    have exact : (bytes.take segment.width).length = segment.width := by
      rw [List.length_take]
      omega
    have small := Bytes.ofLittleEndian_lt (bytes.take segment.width)
    rw [exact] at small
    exact ⟨_, if_neg long, Nat.mod_eq_of_lt small⟩
  refine shaped_single (fun {bytes} short => ?_) (fun long damaged => ?_) fun long sound => ?_
  · have cutOff : (number segment.width).decode bytes = .error .unexpectedEnd := if_pos short
    simp only [refine, cutOff, bind, Except.bind]
  · obtain ⟨word, decoded, isWord⟩ := decodes long
    simp only [refine, decoded, bind, Except.bind, refuses isWord damaged]
  · obtain ⟨word, decoded, isWord⟩ := decodes long
    obtain ⟨value, isValue⟩ := accepts isWord sound
    refine ⟨value, ?_⟩
    simp only [refine, decoded, bind, Except.bind, isValue]
    rfl

theorem shaped_variant {toNumber : α → Nat} {ofNumber? : Nat → Option α} {variants : Nat}
    {small : ∀ value, toNumber value < Bytes.span 4}
    {named : ∀ value, ofNumber? (toNumber value) = some value}
    (names : ∀ number, (∃ value, ofNumber? number = some value) ↔ number < variants) :
    (variant toNumber ofNumber? variants small named).Shaped [.tag variants] := by
  refine shaped_number (.tag variants) ?_ ?_
  · intro bytes cause word isWord damaged
    rw [damage?, ← isWord] at damaged
    split at damaged
    · cases damaged
    · next beyond =>
        obtain rfl := Option.some.inj damaged
        have unnamed : ofNumber? word.val = none :=
          Option.eq_none_iff_forall_ne_some.mpr fun value isNamed =>
            beyond ((names _).mp ⟨value, isNamed⟩)
        simp only [unnamed]
  · intro bytes word isWord sound
    rw [damage?, ← isWord] at sound
    split at sound
    · next isVariant =>
        obtain ⟨value, isNamed⟩ := (names _).mpr isVariant
        exact ⟨value, by simp only [isNamed]⟩
    · cases sound

theorem shaped_epoch : epoch.Shaped [.tag 3] := by
  refine shaped_variant fun number => ?_
  match number with
  | 0 | 1 | 2 => simp [Epoch.ofNumber?]
  | number + 3 => simp [Epoch.ofNumber?]

theorem shaped_bool : bool.Shaped [.flag] := by
  refine shaped_number .flag ?_ ?_
  · intro bytes cause word isWord damaged
    rw [damage?, ← isWord] at damaged
    split at damaged
    · cases damaged
    · next beyond =>
        obtain rfl := Option.some.inj damaged
        rw [if_neg (by omega), if_neg (by omega)]
  · intro bytes word isWord sound
    rw [damage?, ← isWord] at sound
    split at sound
    · next small =>
        by_cases isZero : word.val = 0
        · exact ⟨false, if_pos isZero⟩
        · exact ⟨true, by rw [if_neg isZero, if_pos (by omega)]⟩
    · cases sound

/-! ## Codecs of records -/

theorem Shaped.pair {first : Codec α} {second : Codec β} {front behind : List Segment}
    (left : first.Shaped front) (right : second.Shaped behind) :
    (first.pair second).Shaped (front ++ behind) where
  refuses {bytes cause} faulty := by
    rw [fault?_append] at faulty
    simp only [Codec.pair]
    cases leftFault : fault? front bytes with
    | some damage =>
        rw [leftFault, Option.some_or] at faulty
        obtain rfl := Option.some.inj faulty
        rw [left.refuses leftFault]
        rfl
    | none =>
        rw [leftFault, Option.none_or] at faulty
        obtain ⟨value, decoded⟩ := left.accepts leftFault
        simp only [decoded, bind, Except.bind, right.refuses faulty]
  accepts {bytes} sound := by
    rw [fault?_append, Option.or_eq_none_iff] at sound
    obtain ⟨one, oneDecoded⟩ := left.accepts sound.1
    obtain ⟨other, otherDecoded⟩ := right.accepts sound.2
    rw [List.drop_drop] at otherDecoded
    refine ⟨(one, other), ?_⟩
    rw [extent_append]
    simp only [Codec.pair, oneDecoded, bind, Except.bind, otherDecoded, pure, Except.pure]

theorem Shaped.rename {base : Codec β} {shape : List Segment} {toBase : α → β} {ofBase : β → α}
    {inverse : ∀ value, ofBase (toBase value) = value} (shaped : base.Shaped shape) :
    (base.rename toBase ofBase inverse).Shaped shape where
  refuses faulty := by
    simp only [Codec.rename, Codec.refine, shaped.refuses faulty, bind, Except.bind]
  accepts sound := by
    obtain ⟨value, decoded⟩ := shaped.accepts sound
    exact ⟨ofBase value, by
      simp only [Codec.rename, Codec.refine, decoded, bind, Except.bind, pure, Except.pure]⟩

theorem shaped_identifier {kind : IdentifierKind} :
    (identifier : Codec (Identifier kind)).Shaped [.plain 32] := shaped_fixed

theorem shaped_uint64 : uint64.Shaped [.plain 8] := Shaped.rename shaped_fixed

theorem shaped_amount : amount.Shaped [.plain 16] := Shaped.rename shaped_fixed

theorem shaped_timestamp : timestamp.Shaped [.plain 8] := shaped_uint64.rename

/-! ## What an exact codec is -/

/-- A value is written as its fields in a row, and read back whatever follows. -/
structure Restores (codec : Codec α) (fields : α → List Bytes) : Prop where
  written : ∀ value, codec.encode value = (fields value).flatten
  restored : ∀ value rest, codec.read (codec.encode value ++ rest) = .ok value

/-- Bytes that read as a value begin with its written form, no others that are used denote it, and
every other byte string is refused for a reason. -/
structure Exact (codec : Codec α) (fields : α → List Bytes)
    (Faulty : Bytes → RecordError → Prop) : Prop extends codec.Restores fields where
  begins : ∀ bytes value, codec.read bytes = .ok value → codec.encode value <+: bytes
  unique : ∀ {value front other rest others}, codec.decode (front ++ rest) = .ok (value, rest) →
    codec.decode (other ++ others) = .ok (value, others) → front = other
  truncated : ∀ value front, front <+: codec.encode value → front ≠ codec.encode value →
    ∃ cause, codec.read front = .error cause
  refused_iff : ∀ bytes cause, codec.read bytes = .error cause ↔ Faulty bytes cause

section Reading

variable {codec : Codec α} {bytes front : Bytes} {value : α}

theorem read_eq_ok_iff :
    codec.read bytes = .ok value ↔ ∃ rest, codec.decode bytes = .ok (value, rest) := by
  unfold read
  cases decoded : codec.decode bytes with
  | error cause => simp [Except.map]
  | ok result => simp [Except.map, Prod.ext_iff]

theorem read_eq_error_iff {cause : RecordError} :
    codec.read bytes = .error cause ↔ codec.decode bytes = .error cause := by
  unfold read
  cases codec.decode bytes <;> simp [Except.map]

variable (canonical : codec.Canonical)

include canonical

theorem Canonical.begins (isRead : codec.read bytes = .ok value) :
    codec.encode value <+: bytes := by
  obtain ⟨rest, decoded⟩ := read_eq_ok_iff.mp isRead
  exact ⟨rest, (canonical _ _ _ decoded).symm⟩

/-- What was used to read a value is its written form. -/
theorem Canonical.front_eq {rest : Bytes}
    (decoded : codec.decode (front ++ rest) = .ok (value, rest)) : front = codec.encode value :=
  List.append_cancel_right (canonical _ _ _ decoded)

/-- No written form begins another one, so a part of one is refused. -/
theorem Canonical.truncated (isFront : front <+: codec.encode value)
    (isCut : front ≠ codec.encode value) : ∃ cause, codec.read front = .error cause := by
  cases isRead : codec.read front with
  | error cause => exact ⟨cause, rfl⟩
  | ok other =>
      obtain ⟨rest, isWhole⟩ := (canonical.begins isRead).trans isFront
      have whole := codec.decode_encode value []
      rw [List.append_nil, ← isWhole, codec.decode_encode] at whole
      obtain ⟨rfl, rfl⟩ := Prod.mk.inj (Except.ok.inj whole)
      exact absurd (isFront.eq_of_length_le (canonical.begins isRead).length_le) isCut

end Reading

theorem Canonical.exact {codec : Codec α} {fields : α → List Bytes}
    {Faulty : Bytes → RecordError → Prop} (canonical : codec.Canonical)
    (written : ∀ value, codec.encode value = (fields value).flatten)
    (refused_iff : ∀ bytes cause, codec.decode bytes = .error cause ↔ Faulty bytes cause) :
    codec.Exact fields Faulty where
  written := written
  restored := codec.read_encode
  begins _ _ := canonical.begins
  unique one other := (canonical.front_eq one).trans (canonical.front_eq other).symm
  truncated _ _ := canonical.truncated
  refused_iff bytes cause := read_eq_error_iff.trans (refused_iff bytes cause)

theorem Shaped.refused_iff {codec : Codec α} {shape : List Segment} (shaped : codec.Shaped shape)
    (bytes : Bytes) (cause : RecordError) :
    codec.decode bytes = .error cause ↔ Segment.Faulty shape bytes cause := by
  refine ⟨fun refused => ?_, shaped.refuses⟩
  cases fault : fault? shape bytes with
  | none =>
      obtain ⟨value, decoded⟩ := shaped.accepts fault
      simp [decoded] at refused
  | some other =>
      rw [shaped.refuses fault] at refused
      obtain rfl := Except.error.inj refused
      exact fault

end Codec

/-! ## The records -/

/-- The bytes of the fields of a record, in order. -/
def AccountRecord.fields (record : AccountRecord) : List Bytes :=
  [record.head.toBytes, record.representativeBlock.toBytes, record.openBlock.toBytes,
    Bytes.littleEndian 16 record.balance.toNat, Bytes.littleEndian 8 record.modified.seconds.toNat,
    Bytes.littleEndian 8 record.blockCount.toNat, Bytes.littleEndian 4 record.epoch.number]

def AccountRecord.segments : List Segment :=
  [.plain 32, .plain 32, .plain 32, .plain 16, .plain 8, .plain 8, .tag 3]

def Receivable.fields (receivable : Receivable) : List Bytes :=
  [receivable.source.toBytes, Bytes.littleEndian 16 receivable.amount.toNat,
    Bytes.littleEndian 4 receivable.epoch.number]

def Receivable.segments : List Segment := [.plain 32, .plain 16, .tag 3]

def BlockDetails.fields (details : BlockDetails) : List Bytes :=
  [Bytes.littleEndian 4 details.epoch.number, Bytes.littleEndian 1 details.isSend.toNat,
    Bytes.littleEndian 1 details.isReceive.toNat, Bytes.littleEndian 1 details.isEpoch.toNat]

def BlockDetails.segments : List Segment := [.tag 3, .flag, .flag, .flag]

def Sideband.fields (sideband : Sideband) : List Bytes :=
  [sideband.account.toBytes, Bytes.littleEndian 8 sideband.height.toNat,
    Bytes.littleEndian 16 sideband.balance.toNat,
    Bytes.littleEndian 8 sideband.timestamp.seconds.toNat] ++ sideband.details.fields
    ++ [Bytes.littleEndian 4 sideband.sourceEpoch.number]

def Sideband.segments : List Segment :=
  [.plain 32, .plain 8, .plain 16, .plain 8] ++ BlockDetails.segments ++ [.tag 3]

def StoredBlock.fields (stored : StoredBlock) : List Bytes :=
  stored.block.toTypedBytes :: stored.sideband.fields

/-- The block is refused, or what follows it is no sideband. -/
inductive StoredBlock.Faulty : Bytes → RecordError → Prop where
  | block {bytes : Bytes} {cause : BlockDecodeError} (refused : Block.Refused bytes cause) :
      Faulty bytes (.invalidBlock cause)
  | sideband {kind : BlockKind} {rest : Bytes} {cause : RecordError} (isBlock : kind.IsBlock)
      (long : kind.size ≤ rest.length)
      (faulty : Segment.Faulty Sideband.segments (rest.drop kind.size) cause) :
      Faulty (kind.code :: rest) cause

def ParkedBlock.fields (parked : ParkedBlock) : List Bytes :=
  [Bytes.littleEndian 8 parked.block.toTypedBytes.length, parked.block.toTypedBytes,
    parked.account.toBytes, Bytes.littleEndian 8 parked.modified.seconds.toNat,
    Bytes.littleEndian 4 parked.verified.code]

namespace Codec

theorem shaped_accountRecord : accountRecord.Shaped AccountRecord.segments :=
  Shaped.rename (shaped_identifier.pair (shaped_identifier.pair (shaped_identifier.pair
    (shaped_amount.pair (shaped_timestamp.pair (shaped_uint64.pair shaped_epoch))))))

theorem shaped_receivable : receivable.Shaped Receivable.segments :=
  Shaped.rename (shaped_identifier.pair (shaped_amount.pair shaped_epoch))

theorem shaped_blockDetails : blockDetails.Shaped BlockDetails.segments :=
  Shaped.rename (shaped_epoch.pair (shaped_bool.pair (shaped_bool.pair shaped_bool)))

theorem shaped_sideband : sideband.Shaped Sideband.segments :=
  Shaped.rename (shaped_identifier.pair (shaped_uint64.pair (shaped_amount.pair
    (shaped_timestamp.pair (shaped_blockDetails.pair shaped_epoch)))))

/-! ### What is written -/

theorem encode_accountRecord (record : AccountRecord) :
    accountRecord.encode record = record.fields.flatten := by
  simp only [AccountRecord.fields, List.flatten_cons, List.flatten_nil, List.append_nil]
  rfl

theorem encode_receivable (record : Receivable) :
    receivable.encode record = record.fields.flatten := by
  simp only [Receivable.fields, List.flatten_cons, List.flatten_nil, List.append_nil]
  rfl

theorem encode_blockDetails (details : BlockDetails) :
    blockDetails.encode details = details.fields.flatten := by
  simp only [BlockDetails.fields, List.flatten_cons, List.flatten_nil, List.append_nil]
  rfl

theorem encode_sideband (record : Sideband) :
    sideband.encode record = record.fields.flatten := by
  simp only [Sideband.fields, List.flatten_append, List.flatten_cons, List.flatten_nil,
    List.append_nil, List.append_assoc, ← encode_blockDetails]
  rfl

theorem encode_storedBlock (stored : StoredBlock) :
    storedBlock.encode stored = stored.fields.flatten := by
  rw [StoredBlock.fields, List.flatten_cons, ← encode_sideband]
  rfl

theorem encode_block (value : Block) : block.encode value
    = Bytes.littleEndian 8 value.toTypedBytes.length ++ value.toTypedBytes := by
  have short : value.toTypedBytes.length < UInt64.size := by
    rw [Block.length_toTypedBytes]
    cases value.kind <;> decide
  have count : (UInt64.ofNat value.toTypedBytes.length).toNat = value.toTypedBytes.length := by
    rw [UInt64.toNat_ofNat']
    exact Nat.mod_eq_of_lt short
  rw [← count]
  rfl

theorem encode_parkedBlock (parked : ParkedBlock) :
    parkedBlock.encode parked = parked.fields.flatten := by
  simp only [ParkedBlock.fields, List.flatten_cons, List.flatten_nil, List.append_nil]
  rw [← List.append_assoc, ← encode_block]
  rfl

/-! ### Stored blocks -/

theorem canonical_typedBlock : typedBlock.Canonical := by
  intro bytes block rest decoded
  simp only [typedBlock] at decoded
  split at decoded
  · next value used isRead =>
      obtain ⟨rfl, rfl⟩ := Prod.mk.inj (Except.ok.inj decoded)
      exact (List.take_append_drop used bytes).symm.trans
        (congrArg (· ++ _) (Block.take_of_ofTypedBytes isRead).2)
  · cases decoded

theorem canonical_storedBlock : storedBlock.Canonical :=
  (canonical_typedBlock.pair canonical_sideband).rename fun _ => rfl

theorem decode_storedBlock (bytes : Bytes) : storedBlock.decode bytes
    = match Block.ofTypedBytes bytes with
      | .error cause => .error (.invalidBlock cause)
      | .ok (block, used) =>
        (sideband.decode (bytes.drop used)).map fun result => (⟨block, result.1⟩, result.2) := by
  simp only [storedBlock, rename, refine, pair, typedBlock, bind, Except.bind, pure, Except.pure]
  cases Block.ofTypedBytes bytes with
  | error cause => rfl
  | ok result =>
      dsimp only
      cases sideband.decode (bytes.drop result.2) <;> rfl

/-- If there is a block in front, the sideband decides. -/
theorem decode_storedBlock_of_complete {kind : BlockKind} {rest : Bytes} (isBlock : kind.IsBlock)
    (long : kind.size ≤ rest.length) : ∃ block, storedBlock.decode (kind.code :: rest)
      = (sideband.decode (rest.drop kind.size)).map fun result =>
        (⟨block, result.1⟩, result.2) := by
  obtain ⟨block, isRead⟩ := Block.ofBytes_of_isBlock isBlock rest
  rw [if_neg (Nat.not_lt.mpr long)] at isRead
  refine ⟨block, ?_⟩
  rw [decode_storedBlock, Block.ofTypedBytes_code_cons, isRead]
  simp only [Except.map, Nat.add_comm 1, List.drop_succ_cons]

/-- A stored block is refused for its block, or for what follows the block. -/
theorem refused_storedBlock (bytes : Bytes) (cause : RecordError) :
    storedBlock.decode bytes = .error cause ↔ StoredBlock.Faulty bytes cause := by
  constructor
  · intro fails
    rcases Block.refused_or_complete bytes with ⟨reason, refused⟩ | ⟨kind, rest, isBlock, long⟩
    · rw [decode_storedBlock, Block.ofTypedBytes_of_refused refused] at fails
      obtain rfl := Except.error.inj fails
      exact .block refused
    · obtain ⟨block, decoded⟩ := decode_storedBlock_of_complete isBlock long
      rw [decoded] at fails
      refine .sideband isBlock long ((shaped_sideband.refused_iff _ _).mp ?_)
      cases behind : sideband.decode (rest.drop kind.size) with
      | error other =>
          rw [behind] at fails
          exact congrArg Except.error (Except.error.inj fails)
      | ok result =>
          rw [behind] at fails
          cases fails
  · intro faulty
    cases faulty with
    | block refused => rw [decode_storedBlock, Block.ofTypedBytes_of_refused refused]
    | sideband isBlock long faulty =>
        obtain ⟨block, decoded⟩ := decode_storedBlock_of_complete isBlock long
        rw [decoded, shaped_sideband.refuses faulty]
        rfl

/-- The records of accounts, receivables, sidebands and stored blocks have one written form each:
reading gives the value back whatever follows, what reads as a value begins with its written form,
and everything else is refused for the part that is cut off or damaged. A parked block is read
back as well. -/
theorem records_exact :
    accountRecord.Exact AccountRecord.fields (Segment.Faulty AccountRecord.segments) ∧
      receivable.Exact Receivable.fields (Segment.Faulty Receivable.segments) ∧
      sideband.Exact Sideband.fields (Segment.Faulty Sideband.segments) ∧
      storedBlock.Exact StoredBlock.fields StoredBlock.Faulty ∧
      parkedBlock.Restores ParkedBlock.fields :=
  ⟨canonical_accountRecord.exact encode_accountRecord shaped_accountRecord.refused_iff,
    canonical_receivable.exact encode_receivable shaped_receivable.refused_iff,
    canonical_sideband.exact encode_sideband shaped_sideband.refused_iff,
    canonical_storedBlock.exact encode_storedBlock refused_storedBlock,
    ⟨encode_parkedBlock, parkedBlock.read_encode⟩⟩

/-- Two is no truth value. -/
example : Segment.fault? BlockDetails.segments [1, 0, 0, 0, 0, 2, 0] = some (.invalidBool 2) := by
  decide

end Codec

end AccountChains
