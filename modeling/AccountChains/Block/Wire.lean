import AccountChains.Block.Basic
import AccountChains.Hex

/-!
Contract: the wire form of blocks.

A block is written as its fields in a fixed order, then the signature, then the
work nonce: little-endian for legacy blocks, big-endian for state blocks. A
typed block has the code of its kind in front. Reading cuts a block off the
front of a byte string and leaves the rest to the caller.

Owns: `Block.toBytes`, `Block.toTypedBytes`, their readers, and the causes for
which bytes are no block. The readers look for causes in this order: no bytes at
all, a code that announces no block, too few bytes.
-/

namespace AccountChains

/-- Why bytes are not a block. -/
inductive BlockDecodeError where
  | unknownKind (code : UInt8)
  | truncated (kind : BlockKind) (expected actual : Nat)
  | empty
  | invalidHex (cause : Hex.Error)
deriving DecidableEq, Repr

def BlockDecodeError.kind : BlockDecodeError → String
  | .unknownKind _ => "UnknownType"
  | .truncated .. => "Truncated"
  | .empty => "Empty"
  | .invalidHex _ => "InvalidHex"

def BlockDecodeError.message : BlockDecodeError → String
  | .unknownKind code => "unknown block type code " ++ toString code.toNat
  | .truncated kind expected actual =>
    "truncated " ++ kind.noun ++ " block: need " ++ toString expected ++ " bytes, have "
      ++ toString actual
  | .empty => "empty buffer"
  | .invalidHex cause => "invalid hex: " ++ cause.message

namespace Content

/-- The fields of a content in wire order. -/
def toBytes : Content → Bytes
  | .send content =>
    content.previous.toBytes ++ content.destination.toBytes ++ content.balance.toBytes
  | .receive content => content.previous.toBytes ++ content.source.toBytes
  | .opening content =>
    content.source.toBytes ++ content.representative.toBytes ++ content.account.toBytes
  | .change content => content.previous.toBytes ++ content.representative.toBytes
  | .state content =>
    content.account.toBytes ++ content.previous.toBytes ++ content.representative.toBytes
      ++ content.balance.toBytes ++ content.link.toBytes

def identifierAt {kind : IdentifierKind} (bytes : Bytes) (place : Nat) : Identifier kind :=
  .ofBytes (Bytes.field bytes place 32)

def amountAt (bytes : Bytes) (place : Nat) : Amount := .ofBytes (Bytes.field bytes place 16)

/-- The content of a block of the given kind; none for the kinds that are no block. -/
def ofBytes? (bytes : Bytes) : BlockKind → Option Content
  | .send =>
    some (.send ⟨identifierAt bytes 0, identifierAt bytes 32, amountAt bytes 64⟩)
  | .receive => some (.receive ⟨identifierAt bytes 0, identifierAt bytes 32⟩)
  | .opening =>
    some (.opening ⟨identifierAt bytes 0, identifierAt bytes 32, identifierAt bytes 64⟩)
  | .change => some (.change ⟨identifierAt bytes 0, identifierAt bytes 32⟩)
  | .state =>
    some (.state ⟨identifierAt bytes 0, identifierAt bytes 32, identifierAt bytes 64,
      amountAt bytes 96, identifierAt bytes 112⟩)
  | .invalid | .notABlock => none

end Content

/-- Beside the content a block holds 64 bytes of signature and 8 of work. -/
theorem Content.length_toBytes (content : Content) :
    content.toBytes.length + 72 = content.kind.size := by
  cases content <;> simp [Content.toBytes, Content.kind, BlockKind.size]

namespace Block

/-- The work nonce as a block of the given kind writes it. -/
def workToBytes (kind : BlockKind) (work : UInt64) : Bytes :=
  if kind.isLegacy then Bytes.littleEndian 8 work.toNat else Bytes.bigEndian 8 work.toNat

/-- Read the work nonce of a block of the given kind. -/
def workOfBytes (kind : BlockKind) (bytes : Bytes) : UInt64 :=
  UInt64.ofNat (if kind.isLegacy then Bytes.ofLittleEndian bytes else Bytes.ofBigEndian bytes)

/-- A block without the code of its kind. -/
def toBytes (block : Block) : Bytes :=
  block.content.toBytes ++ block.signature.toBytes ++ workToBytes block.kind block.work

/-- A block with the code of its kind in front. -/
def toTypedBytes (block : Block) : Bytes := block.kind.code :: block.toBytes

/-- Read a block of the given kind off the front of the bytes. -/
def ofBytes (kind : BlockKind) (bytes : Bytes) : Except BlockDecodeError Block :=
  match Content.ofBytes? bytes kind with
  | none => .error (.unknownKind kind.code)
  | some content =>
    if bytes.length < kind.size then
      .error (.truncated kind kind.size bytes.length)
    else
      .ok {
        content
        signature := .ofBytes (Bytes.field bytes (kind.size - 72) 64)
        work := workOfBytes kind (Bytes.field bytes (kind.size - 8) 8)
      }

/-- Read a code and a block of its kind off the front of the bytes; the number is that of
the bytes used. -/
def ofTypedBytes : Bytes → Except BlockDecodeError (Block × Nat)
  | [] => .error .empty
  | code :: rest =>
    match BlockKind.ofCode? code with
    | none => .error (.unknownKind code)
    | some kind => (ofBytes kind rest).map fun block => (block, 1 + kind.size)

@[simp] theorem length_workToBytes (kind : BlockKind) (work : UInt64) :
    (workToBytes kind work).length = 8 := by
  unfold workToBytes
  split <;> simp

theorem workOfBytes_workToBytes (kind : BlockKind) (work : UInt64) :
    workOfBytes kind (workToBytes kind work) = work := by
  have small : work.toNat % Bytes.span 8 = work.toNat := Nat.mod_eq_of_lt work.toNat_lt
  unfold workOfBytes workToBytes
  split
  · rw [Bytes.ofLittleEndian_littleEndian, small, UInt64.ofNat_toNat]
  · rw [Bytes.ofBigEndian_bigEndian, small, UInt64.ofNat_toNat]

theorem workToBytes_workOfBytes (kind : BlockKind) {bytes : Bytes} (exact : bytes.length = 8) :
    workToBytes kind (workOfBytes kind bytes) = bytes := by
  have little := Bytes.littleEndian_ofLittleEndian bytes
  have big := Bytes.bigEndian_ofBigEndian bytes
  have littleSmall := Bytes.ofLittleEndian_lt bytes
  have bigSmall := Bytes.ofBigEndian_lt bytes
  rw [exact] at little big littleSmall bigSmall
  unfold workOfBytes workToBytes
  split
  · rw [UInt64.toNat_ofNat_of_lt' (Nat.lt_of_lt_of_eq littleSmall rfl), little]
  · rw [UInt64.toNat_ofNat_of_lt' (Nat.lt_of_lt_of_eq bigSmall rfl), big]

/-- A block is as long as the blocks of its kind. -/
@[simp] theorem length_toBytes (block : Block) : block.toBytes.length = block.kind.size := by
  have contentLength := block.content.length_toBytes
  simp only [toBytes, List.length_append, Signature.length_toBytes, length_workToBytes, kind]
  omega

@[simp] theorem length_toTypedBytes (block : Block) :
    block.toTypedBytes.length = 1 + block.kind.size := by
  simp [toTypedBytes, Nat.add_comm]

end Block

theorem Content.ofBytes?_toBytes (content : Content) (rest : Bytes) :
    Content.ofBytes? (content.toBytes ++ rest) content.kind = some content := by
  cases content <;>
    simp [Content.ofBytes?, Content.toBytes, Content.kind, Content.identifierAt,
      Content.amountAt, Bytes.field, List.drop_append, Identifier.drop_toBytes]

/-- A block read off the front of its own bytes is that block, whatever follows. -/
theorem Block.ofBytes_toBytes (block : Block) (rest : Bytes) :
    Block.ofBytes block.kind (block.toBytes ++ rest) = .ok block := by
  have contentLength := block.content.length_toBytes
  have signatureField : Bytes.field (block.toBytes ++ rest) (block.kind.size - 72) 64
      = block.signature.toBytes := by
    have place : block.kind.size - 72 = block.content.toBytes.length := by
      simp only [Block.kind]
      omega
    simp [place, Block.toBytes, Bytes.field]
  have workField : Bytes.field (block.toBytes ++ rest) (block.kind.size - 8) 8
      = Block.workToBytes block.kind block.work := by
    have place : block.kind.size - 8
        = (block.content.toBytes ++ block.signature.toBytes).length := by
      simp only [Block.kind, List.length_append, Signature.length_toBytes]
      omega
    simp [place, Block.toBytes, Bytes.field]
  have contentField : Content.ofBytes? (block.toBytes ++ rest) block.kind
      = some block.content := by
    simp only [Block.toBytes, List.append_assoc, Block.kind]
    exact Content.ofBytes?_toBytes ..
  have long : ¬ (block.toBytes ++ rest).length < block.kind.size := by simp
  simp only [Block.ofBytes, contentField, signatureField, workField, if_neg long,
    Signature.ofBytes_toBytes, workOfBytes_workToBytes]

/-- A typed block read off the front of its own bytes is that block, and exactly its own
bytes are used. -/
theorem Block.ofTypedBytes_toTypedBytes (block : Block) (rest : Bytes) :
    Block.ofTypedBytes (block.toTypedBytes ++ rest) = .ok (block, block.toTypedBytes.length) := by
  simp [Block.ofTypedBytes, Block.toTypedBytes, BlockKind.ofCode?_code, Block.ofBytes_toBytes,
    Except.map, Nat.add_comm]

end AccountChains
