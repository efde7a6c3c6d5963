import AccountChains.Proofs.Block.Identity
import AccountChains.Proofs.Block.Scanning

/-!
Contract: the wire form of a block is exact.

A byte string reads as a block exactly if it begins with the code of a kind of blocks
and as many bytes follow as the kind has. The block is then the only one whose wire form
the byte string begins with, and its hash is the digest of bytes that were read. Any
other byte string is refused, and the cause says what was missing.

Owns: the bytes that a block is read from (`Block.Complete`), the bytes that are refused
(`Block.Refused`), and how any bytes read (`Block.TypedForm`). Does not own: the order of
the fields, which the writer and the reader each say for themselves.
-/

namespace AccountChains

/-! ## Fields -/

namespace Bytes

theorem length_field {bytes : Bytes} {place width : Nat} (fits : place + width ≤ bytes.length) :
    (field bytes place width).length = width := by
  simp only [field, List.length_take, List.length_drop]
  omega

/-- Two fields in a row are one. -/
theorem field_append (bytes : Bytes) (place first second : Nat) :
    field bytes place first ++ field bytes (place + first) second
      = field bytes place (first + second) := by
  simp only [field, List.take_add, List.drop_drop]

end Bytes

/-! ## Kinds -/

namespace BlockKind

/-- The kinds of which there are blocks: those with the codes two to six. -/
def IsBlock (kind : BlockKind) : Prop := 2 ≤ kind.code ∧ kind.code ≤ 6

instance (kind : BlockKind) : Decidable kind.IsBlock := inferInstanceAs (Decidable (_ ∧ _))

theorem ofCode?_of_small {code : UInt8} (small : code ≤ 6) : ∃ kind, ofCode? code = some kind := by
  have cases : code = 0 ∨ code = 1 ∨ code = 2 ∨ code = 3 ∨ code = 4 ∨ code = 5 ∨ code = 6 := by
    simp only [UInt8.le_iff_toNat_le, ← UInt8.toNat_inj, UInt8.reduceToNat] at small ⊢
    omega
  rcases cases with rfl | rfl | rfl | rfl | rfl | rfl | rfl <;> exact ⟨_, rfl⟩

theorem outside_of_ofCode?_eq_none {code : UInt8} (unknown : ofCode? code = none) : 6 < code := by
  refine UInt8.not_le.mp fun small => ?_
  obtain ⟨kind, known⟩ := ofCode?_of_small small
  simp [unknown] at known

theorem not_isBlock_iff {kind : BlockKind} :
    ¬ kind.IsBlock ↔ kind.code < 2 ∨ 6 < kind.code := by
  cases kind <;> decide

end BlockKind

namespace Content

variable {bytes : Bytes} {kind : BlockKind} {content : Content}

theorem toBytes_identifierAt {kind : IdentifierKind} {place : Nat}
    (fits : place + 32 ≤ bytes.length) :
    (identifierAt bytes place : Identifier kind).toBytes = Bytes.field bytes place 32 :=
  Identifier.toBytes_ofBytes (Bytes.length_field fits)

theorem toBytes_amountAt {place : Nat} (fits : place + 16 ≤ bytes.length) :
    (amountAt bytes place).toBytes = Bytes.field bytes place 16 :=
  Amount.toBytes_ofBytes (Bytes.length_field fits)

theorem ofBytes?_eq_none_iff : ofBytes? bytes kind = none ↔ ¬ kind.IsBlock := by
  cases kind <;> simp [ofBytes?] <;> decide

theorem kind_of_ofBytes? (read : ofBytes? bytes kind = some content) : content.kind = kind := by
  cases kind <;> cases read <;> rfl

/-- What a content is read from is its wire form. -/
theorem toBytes_of_ofBytes? (read : ofBytes? bytes kind = some content)
    (long : kind.size ≤ bytes.length) :
    content.toBytes = Bytes.field bytes 0 (kind.size - 72) := by
  cases kind <;> cases read <;> simp only [BlockKind.size] at long ⊢
  case send =>
    rw [toBytes, toBytes_identifierAt (by omega), toBytes_identifierAt (by omega),
      toBytes_amountAt (by omega), Bytes.field_append, Bytes.field_append]
  case receive =>
    rw [toBytes, toBytes_identifierAt (by omega), toBytes_identifierAt (by omega),
      Bytes.field_append]
  case opening =>
    rw [toBytes, toBytes_identifierAt (by omega), toBytes_identifierAt (by omega),
      toBytes_identifierAt (by omega), Bytes.field_append, Bytes.field_append]
  case change =>
    rw [toBytes, toBytes_identifierAt (by omega), toBytes_identifierAt (by omega),
      Bytes.field_append]
  case state =>
    rw [toBytes, toBytes_identifierAt (by omega), toBytes_identifierAt (by omega),
      toBytes_identifierAt (by omega), toBytes_amountAt (by omega),
      toBytes_identifierAt (by omega), Bytes.field_append, Bytes.field_append,
      Bytes.field_append, Bytes.field_append]

end Content

/-! ## Blocks -/

namespace Block

variable {bytes rest : Bytes} {kind : BlockKind} {block : Block} {cause : BlockDecodeError}
  {used : Nat}

theorem ofBytes_of_not_isBlock (noBlock : ¬ kind.IsBlock) (bytes : Bytes) :
    ofBytes kind bytes = .error (.unknownKind kind.code) := by
  simp only [ofBytes, Content.ofBytes?_eq_none_iff.mpr noBlock]

theorem ofBytes_of_isBlock (isBlock : kind.IsBlock) (bytes : Bytes) :
    ∃ block, ofBytes kind bytes
      = if bytes.length < kind.size then .error (.truncated kind kind.size bytes.length)
        else .ok block := by
  have known : Content.ofBytes? bytes kind ≠ none := fun unknown =>
    Content.ofBytes?_eq_none_iff.mp unknown isBlock
  obtain ⟨content, read⟩ := Option.ne_none_iff_exists'.mp known
  exact ⟨_, by simp only [ofBytes, read]; rfl⟩

/-- What a block is read from is its wire form. -/
theorem toBytes_of_ofBytes (read : ofBytes kind bytes = .ok block) :
    block.kind = kind ∧ block.toBytes = bytes.take kind.size := by
  unfold ofBytes at read
  split at read
  · cases read
  · rename_i content contentRead
    split at read
    · cases read
    · rename_i long
      cases read
      have isKind := Content.kind_of_ofBytes? contentRead
      have contentField := Content.toBytes_of_ofBytes? contentRead (by omega)
      -- The three parts stand behind each other.
      obtain ⟨width, size⟩ : ∃ width, kind.size = width + 72 :=
        ⟨content.toBytes.length, isKind ▸ content.length_toBytes.symm⟩
      have signaturePlace : kind.size - 72 = width := by omega
      have workPlace : kind.size - 8 = width + 64 := by omega
      refine ⟨isKind, ?_⟩
      simp only [toBytes, Block.kind, isKind, contentField, signaturePlace, workPlace]
      rw [Signature.toBytes_ofBytes (Bytes.length_field (by omega)),
        workToBytes_workOfBytes kind (Bytes.length_field (by omega))]
      have front := Bytes.field_append bytes 0 width 64
      have whole := Bytes.field_append bytes 0 (width + 64) 8
      rw [Nat.zero_add] at front whole
      rw [front, whole, size]
      rfl

theorem ofTypedBytes_code_cons (kind : BlockKind) (rest : Bytes) :
    ofTypedBytes (kind.code :: rest)
      = (ofBytes kind rest).map fun block => (block, 1 + kind.size) := by
  simp only [ofTypedBytes, BlockKind.ofCode?_code]

/-- The bytes begin with the code of a kind of blocks, and as many follow as it has. -/
inductive Complete : Bytes → Prop where
  | mk (kind : BlockKind) (rest : Bytes) (isBlock : kind.IsBlock) (long : kind.size ≤ rest.length) :
    Complete (kind.code :: rest)

/-- Why bytes are refused. -/
inductive Refused : Bytes → BlockDecodeError → Prop where
  | empty : Refused [] .empty
  | unknown (code : UInt8) (rest : Bytes) (outside : code < 2 ∨ 6 < code) :
    Refused (code :: rest) (.unknownKind code)
  | truncated (kind : BlockKind) (rest : Bytes) (isBlock : kind.IsBlock)
      (short : rest.length < kind.size) :
    Refused (kind.code :: rest) (.truncated kind kind.size rest.length)

theorem refused_or_complete (bytes : Bytes) :
    (∃ cause, Refused bytes cause) ∨ Complete bytes := by
  cases bytes with
  | nil => exact .inl ⟨_, .empty⟩
  | cons code rest =>
    cases announced : BlockKind.ofCode? code with
    | none =>
      exact .inl ⟨_, .unknown code rest (.inr (BlockKind.outside_of_ofCode?_eq_none announced))⟩
    | some kind =>
      obtain rfl := BlockKind.code_of_ofCode? announced
      by_cases isBlock : kind.IsBlock
      · rcases Nat.lt_or_ge rest.length kind.size with short | long
        · exact .inl ⟨_, .truncated kind rest isBlock short⟩
        · exact .inr (.mk kind rest isBlock long)
      · exact .inl ⟨_, .unknown kind.code rest (BlockKind.not_isBlock_iff.mp isBlock)⟩

theorem ofTypedBytes_of_complete (complete : Complete bytes) :
    ∃ block used, ofTypedBytes bytes = .ok (block, used) := by
  obtain ⟨kind, rest, isBlock, long⟩ := complete
  obtain ⟨block, read⟩ := ofBytes_of_isBlock isBlock rest
  rw [if_neg (Nat.not_lt.mpr long)] at read
  exact ⟨block, 1 + kind.size, by rw [ofTypedBytes_code_cons, read]; rfl⟩

theorem ofTypedBytes_of_refused (refused : Refused bytes cause) :
    ofTypedBytes bytes = .error cause := by
  cases refused with
  | empty => rfl
  | unknown code rest outside =>
    cases announced : BlockKind.ofCode? code with
    | none => simp only [ofTypedBytes, announced]
    | some kind =>
      obtain rfl := BlockKind.code_of_ofCode? announced
      rw [ofTypedBytes_code_cons,
        ofBytes_of_not_isBlock (BlockKind.not_isBlock_iff.mpr outside)]
      rfl
  | truncated kind rest isBlock short =>
    obtain ⟨block, read⟩ := ofBytes_of_isBlock isBlock rest
    rw [ofTypedBytes_code_cons, read, if_pos short]
    rfl

/-- A block that is read is the one whose wire form is in front of the bytes. -/
theorem take_of_ofTypedBytes (read : ofTypedBytes bytes = .ok (block, used)) :
    used = block.toTypedBytes.length ∧ bytes.take used = block.toTypedBytes := by
  rcases refused_or_complete bytes with ⟨cause, refused⟩ | ⟨kind, rest, isBlock, long⟩
  · simp [ofTypedBytes_of_refused refused] at read
  · rw [ofTypedBytes_code_cons] at read
    cases untyped : ofBytes kind rest with
    | error cause => simp [untyped, Except.map] at read
    | ok found =>
      simp only [untyped, Except.map, Except.ok.injEq, Prod.mk.injEq] at read
      obtain ⟨rfl, rfl⟩ := read
      obtain ⟨rfl, written⟩ := toBytes_of_ofBytes untyped
      exact ⟨(length_toTypedBytes found).symm, by
        rw [toTypedBytes, written, Nat.add_comm, List.take_succ_cons]⟩

/-- The content of a block is in front of its other fields. -/
theorem take_toBytes (block : Block) (rest : Bytes) :
    (block.toBytes ++ rest).take (block.kind.size - 72) = block.content.toBytes := by
  have width : block.kind.size - 72 = block.content.toBytes.length := by
    have total := block.content.length_toBytes
    simp only [Block.kind]
    omega
  rw [width, toBytes, List.append_assoc, List.append_assoc, List.take_left]

/-- The hash of a block that is read is the digest of bytes that were read. -/
theorem hash_of_ofTypedBytes (read : ofTypedBytes bytes = .ok (block, used)) :
    block.hash = ⟨Blake2b.digest256
      (block.kind.preamble ++ (bytes.drop 1).take (block.kind.size - 72))⟩ := by
  obtain ⟨-, front⟩ := take_of_ofTypedBytes read
  have split := List.take_append_drop used bytes
  rw [front, toTypedBytes, List.cons_append] at split
  rw [← split, List.drop_one, List.tail_cons, take_toBytes]
  unfold hash Content.hash
  rw [Content.hashInput_eq]
  rfl

/-- How a byte string reads as a typed block. -/
structure TypedForm (bytes : Bytes) : Prop where
  accepted_iff : (∃ block used, ofTypedBytes bytes = .ok (block, used)) ↔ Complete bytes
  refused_iff : ∀ cause, ofTypedBytes bytes = .error cause ↔ Refused bytes cause
  /-- The block has the bytes that are used for its wire form. -/
  written : ∀ block used, ofTypedBytes bytes = .ok (block, used) →
    used = block.toTypedBytes.length ∧ bytes.take used = block.toTypedBytes
  hashed : ∀ block used, ofTypedBytes bytes = .ok (block, used) →
    block.hash = ⟨Blake2b.digest256
      (block.kind.preamble ++ (bytes.drop 1).take (block.kind.size - 72))⟩
  /-- Read field by field it gives the same, with the hash beside the block. -/
  scanned : Scan.typed bytes = ((ofTypedBytes bytes).mapError ScanStop.refused).map
    fun (block, used) => (block.sealed, used)
  /-- No field reaches beyond the last byte. -/
  bounded : Scan.typed bytes ≠ .error .overrun

/-- Every block is read back from its wire form, whatever follows; and every byte string reads as
its first bytes say. -/
theorem typed_form_exact :
    (∀ (block : Block) (rest : Bytes),
      ofTypedBytes (block.toTypedBytes ++ rest) = .ok (block, block.toTypedBytes.length)
        ∧ Scan.typed (block.toTypedBytes ++ rest)
          = .ok (block.sealed, block.toTypedBytes.length))
      ∧ ∀ bytes, TypedForm bytes := by
  refine ⟨fun block rest => ⟨ofTypedBytes_toTypedBytes block rest, ?_⟩, fun bytes => ?_⟩
  · rw [Scan.typed_eq, ofTypedBytes_toTypedBytes]
    rfl
  constructor
  case written => exact fun _ _ => take_of_ofTypedBytes
  case hashed => exact fun _ _ => hash_of_ofTypedBytes
  case scanned => exact Scan.typed_eq bytes
  case bounded =>
    intro overrun
    rw [Scan.typed_eq] at overrun
    cases read : ofTypedBytes bytes with
    | error cause =>
      rw [read] at overrun
      cases overrun
    | ok result =>
      rw [read] at overrun
      cases overrun
  case accepted_iff =>
    refine ⟨?_, ofTypedBytes_of_complete⟩
    rintro ⟨block, used, read⟩
    rcases refused_or_complete bytes with ⟨cause, refused⟩ | complete
    · simp [ofTypedBytes_of_refused refused] at read
    · exact complete
  case refused_iff =>
    refine fun cause => ⟨fun read => ?_, ofTypedBytes_of_refused⟩
    rcases refused_or_complete bytes with ⟨other, refused⟩ | complete
    · rw [ofTypedBytes_of_refused refused] at read
      cases read
      exact refused
    · obtain ⟨block, used, found⟩ := ofTypedBytes_of_complete complete
      simp [found] at read

end Block

end AccountChains
