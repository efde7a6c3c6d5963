import AccountChains.Amount
import AccountChains.Block.Wire
import AccountChains.Epoch
import AccountChains.Timestamp
import AccountChains.Verification

/-!
Contract: the binary form of stored records.

A record is its fields in a row. Integers have a fixed width and are
little-endian; a choice among variants is its number in four bytes; a truth value
is one byte; an identifier is its 32 bytes; a block or a signature is preceded by
the count of its bytes in eight bytes. A reader cuts a value off the front of a
byte string and hands back the rest, so bytes after a record are no error.

Owns: `Codec`, whose law is that reading what was written gives the value and
the rest; `Codec.Canonical`, the converse, with the codecs that have it; the
causes for which bytes are no record. Does not own: which fields a record has.
-/

namespace AccountChains

inductive RecordError where
  | unexpectedEnd
  /-- A counted byte string is shorter than its count. -/
  | shortBytes
  | invalidBool (byte : UInt8)
  | invalidVariant (number variants : Nat)
  | invalidLength (actual expected : Nat)
  | invalidBlock (cause : BlockDecodeError)
deriving DecidableEq, Repr

def RecordError.message : RecordError → String
  | .unexpectedEnd => "io error: unexpected end of file"
  | .shortBytes => "io error: "
  | .invalidBool byte =>
    "invalid u8 while decoding bool, expected 0 or 1, found " ++ toString byte.toNat
  | .invalidVariant number variants =>
    "invalid value: integer `" ++ toString number ++ "`, expected variant index 0 <= i < "
      ++ toString variants
  | .invalidLength actual expected =>
    "invalid length " ++ toString actual ++ ", expected " ++ toString expected ++ " bytes"
  | .invalidBlock cause => cause.message

/-- A way to write values as bytes and to read them off the front of a byte string. -/
structure Codec (α : Type) where
  encode : α → Bytes
  decode : Bytes → Except RecordError (α × Bytes)
  decode_encode : ∀ value rest, decode (encode value ++ rest) = .ok (value, rest)

namespace Codec

variable {α β : Type}

/-- Every byte string that is read consists of the written form of the value and the rest. -/
def Canonical (codec : Codec α) : Prop :=
  ∀ bytes value rest, codec.decode bytes = .ok (value, rest) → bytes = codec.encode value ++ rest

/-- Read a value and ignore what follows. -/
def read (codec : Codec α) (bytes : Bytes) : Except RecordError α :=
  (codec.decode bytes).map Prod.fst

theorem read_encode (codec : Codec α) (value : α) (rest : Bytes) :
    codec.read (codec.encode value ++ rest) = .ok value := by
  simp [read, codec.decode_encode, Except.map]

/-! ## Fields of fixed width -/

/-- A value whose written form always has `width` bytes, all of which mean something. -/
def fixed (width : Nat) (toField : α → Bytes) (ofField : Bytes → α)
    (exact : ∀ value, (toField value).length = width)
    (inverse : ∀ value, ofField (toField value) = value) : Codec α where
  encode := toField
  decode := fun bytes =>
    if bytes.length < width then .error .unexpectedEnd
    else .ok (ofField (bytes.take width), bytes.drop width)
  decode_encode := by
    intro value rest
    have long : ¬ (toField value ++ rest).length < width := by
      simp [exact]
    rw [if_neg long, List.take_append_of_le_length (Nat.le_of_eq (exact value).symm),
      List.drop_append_of_le_length (Nat.le_of_eq (exact value).symm),
      List.take_of_length_le (Nat.le_of_eq (exact value)),
      List.drop_of_length_le (Nat.le_of_eq (exact value)), inverse, List.nil_append]

theorem canonical_fixed {width : Nat} {toField : α → Bytes} {ofField : Bytes → α}
    {exact : ∀ value, (toField value).length = width}
    {inverse : ∀ value, ofField (toField value) = value}
    (onto : ∀ field : Bytes, field.length = width → toField (ofField field) = field) :
    (fixed width toField ofField exact inverse).Canonical := by
  intro bytes value rest decoded
  simp only [fixed] at decoded ⊢
  split at decoded
  · simp at decoded
  · rename_i long
    simp only [Except.ok.injEq, Prod.mk.injEq] at decoded
    obtain ⟨rfl, rfl⟩ := decoded
    rw [onto (bytes.take width) (by simp; omega), List.take_append_drop]

/-- A number that some bytes can hold, least significant byte first. -/
def number (width : Nat) : Codec (Fin (Bytes.span width)) :=
  fixed width (fun value => Bytes.littleEndian width value)
    (fun field => ⟨Bytes.ofLittleEndian field % Bytes.span width,
      Nat.mod_lt _ (Bytes.span_pos width)⟩)
    (fun value => Bytes.length_littleEndian width value)
    (fun value => by
      apply Fin.ext
      simp [Bytes.ofLittleEndian_littleEndian, Nat.mod_eq_of_lt value.isLt])

theorem canonical_number (width : Nat) : (number width).Canonical :=
  canonical_fixed fun field exact => by
    have small := Bytes.ofLittleEndian_lt field
    have written := Bytes.littleEndian_ofLittleEndian field
    rw [exact] at small written
    simp only [Nat.mod_eq_of_lt small, written]

/-! ## Combination -/

/-- Two values in a row. -/
def pair (first : Codec α) (second : Codec β) : Codec (α × β) where
  encode := fun value => first.encode value.1 ++ second.encode value.2
  decode := fun bytes => do
    let (left, middle) ← first.decode bytes
    let (right, rest) ← second.decode middle
    return ((left, right), rest)
  decode_encode := by
    intro value rest
    simp [first.decode_encode, second.decode_encode, bind, Except.bind, pure, Except.pure]

theorem Canonical.pair {first : Codec α} {second : Codec β} (left : first.Canonical)
    (right : second.Canonical) : (first.pair second).Canonical := by
  intro bytes value rest decoded
  simp only [Codec.pair, bind, Except.bind, pure, Except.pure] at decoded ⊢
  split at decoded
  · simp at decoded
  · rename_i firstResult firstDecoded
    split at decoded
    · simp at decoded
    · rename_i secondResult secondDecoded
      simp only [Except.ok.injEq, Prod.mk.injEq] at decoded
      obtain ⟨rfl, rfl⟩ := decoded
      rw [left _ _ _ firstDecoded, right _ _ _ secondDecoded]
      simp

/-- A value written as another one; reading may refuse what no value is written as. -/
def refine (base : Codec β) (toBase : α → β) (ofBase : β → Except RecordError α)
    (inverse : ∀ value, ofBase (toBase value) = .ok value) : Codec α where
  encode := fun value => base.encode (toBase value)
  decode := fun bytes => do
    let (written, rest) ← base.decode bytes
    let value ← ofBase written
    return (value, rest)
  decode_encode := by
    intro value rest
    simp [base.decode_encode, inverse, bind, Except.bind, pure, Except.pure]

theorem Canonical.refine {base : Codec β} {toBase : α → β} {ofBase : β → Except RecordError α}
    {inverse : ∀ value, ofBase (toBase value) = .ok value} (canonical : base.Canonical)
    (injective : ∀ written value, ofBase written = .ok value → toBase value = written) :
    (base.refine toBase ofBase inverse).Canonical := by
  intro bytes value rest decoded
  simp only [Codec.refine, bind, Except.bind, pure, Except.pure] at decoded ⊢
  split at decoded
  · simp at decoded
  · rename_i written baseDecoded
    split at decoded
    · simp at decoded
    · rename_i refined accepted
      simp only [Except.ok.injEq, Prod.mk.injEq] at decoded
      obtain ⟨rfl, rfl⟩ := decoded
      rw [canonical _ _ _ baseDecoded, injective _ _ accepted]

/-- A value that is another one under a different name. -/
def rename (base : Codec β) (toBase : α → β) (ofBase : β → α)
    (inverse : ∀ value, ofBase (toBase value) = value) : Codec α :=
  base.refine toBase (fun written => .ok (ofBase written)) fun value => by rw [inverse]

theorem Canonical.rename {base : Codec β} {toBase : α → β} {ofBase : β → α}
    {inverse : ∀ value, ofBase (toBase value) = value} (canonical : base.Canonical)
    (onto : ∀ written, toBase (ofBase written) = written) :
    (base.rename toBase ofBase inverse).Canonical :=
  canonical.refine fun written value accepted => by
    simp only [Except.ok.injEq] at accepted
    rw [← accepted, onto]

/-! ## The field types of records -/

/-- A 64-bit integer in eight bytes. -/
def uint64 : Codec UInt64 :=
  (number 8).rename (fun value => ⟨value.toNat, value.toNat_lt⟩)
    (fun written => UInt64.ofNat written.val)
    (fun value => by simp)

theorem canonical_uint64 : uint64.Canonical :=
  (canonical_number 8).rename fun written => by
    apply Fin.ext
    have small : written.val < UInt64.size := written.isLt
    simp only [UInt64.toNat_ofNat']
    exact Nat.mod_eq_of_lt small

/-- The number of a variant, in four bytes; a number that names none is refused. -/
def variant (toNumber : α → Nat) (ofNumber? : Nat → Option α) (variants : Nat)
    (small : ∀ value, toNumber value < Bytes.span 4)
    (named : ∀ value, ofNumber? (toNumber value) = some value) : Codec α :=
  (number 4).refine (fun value => ⟨toNumber value, small value⟩)
    (fun written => match ofNumber? written.val with
      | some value => .ok value
      | none => .error (.invalidVariant written.val variants))
    (fun value => by simp [named])

theorem canonical_variant {toNumber : α → Nat} {ofNumber? : Nat → Option α} {variants : Nat}
    {small : ∀ value, toNumber value < Bytes.span 4}
    {named : ∀ value, ofNumber? (toNumber value) = some value}
    (back : ∀ number value, ofNumber? number = some value → toNumber value = number) :
    (variant toNumber ofNumber? variants small named).Canonical :=
  (canonical_number 4).refine fun written value accepted => by
    split at accepted
    · rename_i found
      simp only [Except.ok.injEq] at accepted
      subst accepted
      exact Fin.ext (back _ _ found)
    · simp at accepted

/-- An epoch by its number. -/
def epoch : Codec Epoch :=
  variant Epoch.number Epoch.ofNumber? 3
    (fun value => by cases value <;> decide) Epoch.ofNumber?_number

theorem canonical_epoch : epoch.Canonical :=
  canonical_variant fun _ _ => Epoch.number_of_ofNumber?

/-- What is known about a signature, by its number. -/
def verification : Codec Verification :=
  variant Verification.code Verification.ofCode? 4
    (fun value => by cases value <;> decide) Verification.ofCode?_code

theorem canonical_verification : verification.Canonical :=
  canonical_variant fun _ _ => Verification.code_of_ofCode?

/-- A truth value as the byte zero or one. -/
def bool : Codec Bool :=
  (number 1).refine (fun value => ⟨value.toNat, by cases value <;> decide⟩)
    (fun written =>
      if written.val = 0 then .ok false
      else if written.val = 1 then .ok true
      else .error (.invalidBool (UInt8.ofNat written.val)))
    (fun value => by cases value <;> rfl)

theorem canonical_bool : bool.Canonical :=
  (canonical_number 1).refine fun written value accepted => by
    apply Fin.ext
    split at accepted
    · simp_all [← Except.ok.inj accepted]
    · split at accepted
      · simp_all [← Except.ok.inj accepted]
      · simp at accepted

/-- An identifier as its 32 bytes. -/
def identifier {kind : IdentifierKind} : Codec (Identifier kind) :=
  fixed 32 Identifier.toBytes Identifier.ofBytes Identifier.length_toBytes
    Identifier.ofBytes_toBytes

theorem canonical_identifier {kind : IdentifierKind} :
    (identifier : Codec (Identifier kind)).Canonical :=
  canonical_fixed fun _ => Identifier.toBytes_ofBytes

/-- An amount in sixteen bytes, least significant first. -/
def amount : Codec Amount :=
  (number 16).rename (fun value => ⟨value.toNat, value.toNat_lt⟩)
    (fun written => Amount.ofNat written.val)
    (fun value => by simp)

theorem canonical_amount : amount.Canonical :=
  (canonical_number 16).rename fun written => by
    apply Fin.ext
    have small : written.val < Amount.size := written.isLt
    simp only [Amount.toNat, Amount.ofNat, BitVec.toNat_ofNat]
    exact Nat.mod_eq_of_lt small

/-- A time as its count of seconds. -/
def timestamp : Codec Timestamp :=
  uint64.rename Timestamp.seconds Timestamp.mk fun _ => rfl

theorem canonical_timestamp : timestamp.Canonical :=
  canonical_uint64.rename fun _ => rfl

/-- A byte string of fewer bytes than a 64-bit count can say, preceded by the count of its bytes. -/
structure Counted where
  bytes : Bytes
  short : bytes.length < UInt64.size
deriving DecidableEq, Repr

/-- A counted byte string; `missing` is the cause when there are fewer bytes than counted. -/
def counted (missing : RecordError) : Codec Counted where
  encode := fun value => uint64.encode (UInt64.ofNat value.bytes.length) ++ value.bytes
  decode := fun bytes => do
    let (count, rest) ← uint64.decode bytes
    if short : rest.length < count.toNat then .error missing
    else
      .ok (⟨rest.take count.toNat, by
        simp only [List.length_take]
        have bound : count.toNat < UInt64.size := count.toNat_lt
        omega⟩, rest.drop count.toNat)
  decode_encode := by
    intro value rest
    have count : (UInt64.ofNat value.bytes.length).toNat = value.bytes.length := by
      rw [UInt64.toNat_ofNat']
      exact Nat.mod_eq_of_lt value.short
    have enough : ¬ value.bytes.length + rest.length < value.bytes.length := by omega
    simp [uint64.decode_encode, bind, Except.bind, count, enough]

/-- A block as its counted typed bytes. Bytes inside the count that follow the block are
ignored. -/
def block : Codec Block :=
  (counted .unexpectedEnd).refine
    (fun value => ⟨value.toTypedBytes, by
      rw [Block.length_toTypedBytes]
      cases value.kind <;> decide⟩)
    (fun written => match Block.ofTypedBytes written.bytes with
      | .ok (value, _) => .ok value
      | .error cause => .error (.invalidBlock cause))
    (fun value => by
      have decoded := Block.ofTypedBytes_toTypedBytes value []
      simp only [List.append_nil] at decoded
      simp [decoded])

/-- A block as its typed bytes, without a count. -/
def typedBlock : Codec Block where
  encode := Block.toTypedBytes
  decode := fun bytes => match Block.ofTypedBytes bytes with
    | .ok (value, used) => .ok (value, bytes.drop used)
    | .error cause => .error (.invalidBlock cause)
  decode_encode := by
    intro value rest
    rw [Block.ofTypedBytes_toTypedBytes]
    simp

/-- A signature as 64 counted bytes. -/
def signature : Codec Signature :=
  (counted .shortBytes).refine
    (fun value => ⟨value.toBytes, by rw [Signature.length_toBytes]; decide⟩)
    (fun written =>
      if written.bytes.length = 64 then .ok (Signature.ofBytes written.bytes)
      else .error (.invalidLength written.bytes.length 64))
    (fun value => by simp)

/-- A signature as a sequence of bytes without a count: exactly 64 of them. -/
def signatureOfSequence? (bytes : Bytes) : Option Signature :=
  if bytes.length = 64 then some (Signature.ofBytes bytes) else none

end Codec

end AccountChains
