import AccountChains.Block.Hash
import AccountChains.Block.Wire

/-!
Contract: blocks read field by field.

A scan cuts one field after the other off the bytes. Whether there are enough bytes is
asked once, before the first field; a field that reached beyond the last byte would stop
the scan where nothing handles it. It does not happen, since the fields of a kind are as
many bytes as its size says.

Owns: `Scan`, whose law `Scan.Yields` says how many bytes a scan takes and what it makes
of them; the scan of a typed block, and that it finds what `Block.ofTypedBytes` finds, with
the hash beside. Does not own: which bytes are a block.
-/

namespace AccountChains

/-- A block with its hash, which is computed once, when the block is made. -/
structure SealedBlock where
  block : Block
  hash : BlockHash

def SealedBlock.make (content : Content) (signature : Signature) (work : UInt64) : SealedBlock :=
  ⟨⟨content, signature, work⟩, content.hash⟩

def Block.sealed (block : Block) : SealedBlock := ⟨block, block.hash⟩

theorem SealedBlock.make_eq (content : Content) (signature : Signature) (work : UInt64) :
    make content signature work = (⟨content, signature, work⟩ : Block).sealed := by
  unfold make Block.sealed Block.hash
  rfl

/-- Bytes, and how many of them have been read. -/
structure Cursor where
  bytes : Bytes
  place : Nat

/-- Why a scan ends without a block. -/
inductive ScanStop where
  | refused (cause : BlockDecodeError)
  /-- A field reaches beyond the last byte. -/
  | overrun

abbrev Scan (α : Type) := StateT Cursor (Except ScanStop) α

namespace Scan

variable {α β : Type}

/-- The next so many bytes. -/
def cut (width : Nat) : Scan Bytes := fun cursor =>
  if cursor.place + width ≤ cursor.bytes.length then
    .ok (Bytes.field cursor.bytes cursor.place width, ⟨cursor.bytes, cursor.place + width⟩)
  else .error .overrun

def identifier {kind : IdentifierKind} : Scan (Identifier kind) := do
  return .ofBytes (← cut 32)

def amount : Scan Amount := do
  return .ofBytes (← cut 16)

def signature : Scan Signature := do
  return .ofBytes (← cut 64)

def work (kind : BlockKind) : Scan UInt64 := do
  return Block.workOfBytes kind (← cut 8)

def send : Scan Content := do
  let previous ← identifier
  let destination ← identifier
  let balance ← amount
  return .send { previous, destination, balance }

def receive : Scan Content := do
  let previous ← identifier
  let source ← identifier
  return .receive { previous, source }

def opening : Scan Content := do
  let source ← identifier
  let representative ← identifier
  let account ← identifier
  return .opening { source, representative, account }

def change : Scan Content := do
  let previous ← identifier
  let representative ← identifier
  return .change { previous, representative }

def state : Scan Content := do
  let account ← identifier
  let previous ← identifier
  let representative ← identifier
  let balance ← amount
  let link ← identifier
  return .state { account, previous, representative, balance, link }

/-- A block of a given kind, with the given scan of its content. -/
def block (kind : BlockKind) (content : Scan Content) : Scan SealedBlock := do
  let content ← content
  let signature ← signature
  let work ← work kind
  return .make content signature work

/-- A scan from the first byte on, if there are as many bytes as the kind has. -/
def from? (kind : BlockKind) (content : Scan Content) (bytes : Bytes) :
    Except ScanStop SealedBlock :=
  if bytes.length < kind.size then .error (.refused (.truncated kind kind.size bytes.length))
  else (block kind content ⟨bytes, 0⟩).map Prod.fst

/-- Scan a block of the given kind. -/
def untyped (bytes : Bytes) : BlockKind → Except ScanStop SealedBlock
  | .send => from? .send send bytes
  | .receive => from? .receive receive bytes
  | .opening => from? .opening opening bytes
  | .change => from? .change change bytes
  | .state => from? .state state bytes
  | .invalid => .error (.refused (.unknownKind BlockKind.invalid.code))
  | .notABlock => .error (.refused (.unknownKind BlockKind.notABlock.code))

/-- Scan a code and a block of its kind; the number is that of the bytes used. -/
def typed : Bytes → Except ScanStop (SealedBlock × Nat)
  | [] => .error (.refused .empty)
  | code :: rest =>
    match BlockKind.ofCode? code with
    | none => .error (.refused (.unknownKind code))
    | some kind => (untyped rest kind).map fun block => (block, 1 + kind.size)

/-! ## What a scan takes -/

/-- A scan takes so many bytes, and makes this of them, if there are as many. -/
def Yields (scan : Scan α) (width : Nat) (value : Bytes → Nat → α) : Prop :=
  ∀ bytes place, place + width ≤ bytes.length →
    scan ⟨bytes, place⟩ = .ok (value bytes place, ⟨bytes, place + width⟩)

theorem yields_cut (width : Nat) :
    Yields (cut width) width fun bytes place => Bytes.field bytes place width :=
  fun _ _ fits => if_pos fits

theorem yields_pure (value : α) : Yields (pure value) 0 fun _ _ => value :=
  fun _ _ _ => rfl

/-- One scan after another takes the bytes of both. -/
theorem Yields.bind {scan : Scan α} {next : α → Scan β} {width nextWidth : Nat}
    {value : Bytes → Nat → α} {nextValue : α → Bytes → Nat → β} (first : Yields scan width value)
    (second : ∀ result, Yields (next result) nextWidth (nextValue result)) :
    Yields (scan >>= next) (width + nextWidth) fun bytes place =>
      nextValue (value bytes place) bytes (place + width) := by
  intro bytes place fits
  have scanned := first bytes place (by omega)
  have continued := second (value bytes place) bytes (place + width) (by omega)
  simp only [Bind.bind, StateT.bind, Except.bind, scanned, continued, Nat.add_assoc]

theorem yields_identifier {kind : IdentifierKind} :
    Yields (identifier : Scan (Identifier kind)) 32 Content.identifierAt :=
  (yields_cut 32).bind fun _ => yields_pure _

theorem yields_amount : Yields amount 16 Content.amountAt :=
  (yields_cut 16).bind fun _ => yields_pure _

theorem yields_signature :
    Yields signature 64 fun bytes place => .ofBytes (Bytes.field bytes place 64) :=
  (yields_cut 64).bind fun _ => yields_pure _

theorem yields_work (kind : BlockKind) :
    Yields (work kind) 8 fun bytes place => Block.workOfBytes kind (Bytes.field bytes place 8) :=
  (yields_cut 8).bind fun _ => yields_pure _

theorem yields_send : Yields send 80 fun bytes place =>
    .send ⟨Content.identifierAt bytes place, Content.identifierAt bytes (place + 32),
      Content.amountAt bytes (place + 32 + 32)⟩ :=
  yields_identifier.bind fun _ => yields_identifier.bind fun _ =>
    yields_amount.bind fun _ => yields_pure _

theorem yields_receive : Yields receive 64 fun bytes place =>
    .receive ⟨Content.identifierAt bytes place, Content.identifierAt bytes (place + 32)⟩ :=
  yields_identifier.bind fun _ => yields_identifier.bind fun _ => yields_pure _

theorem yields_opening : Yields opening 96 fun bytes place =>
    .opening ⟨Content.identifierAt bytes place, Content.identifierAt bytes (place + 32),
      Content.identifierAt bytes (place + 32 + 32)⟩ :=
  yields_identifier.bind fun _ => yields_identifier.bind fun _ =>
    yields_identifier.bind fun _ => yields_pure _

theorem yields_change : Yields change 64 fun bytes place =>
    .change ⟨Content.identifierAt bytes place, Content.identifierAt bytes (place + 32)⟩ :=
  yields_identifier.bind fun _ => yields_identifier.bind fun _ => yields_pure _

theorem yields_state : Yields state 144 fun bytes place =>
    .state ⟨Content.identifierAt bytes place, Content.identifierAt bytes (place + 32),
      Content.identifierAt bytes (place + 32 + 32), Content.amountAt bytes (place + 32 + 32 + 32),
      Content.identifierAt bytes (place + 32 + 32 + 32 + 16)⟩ :=
  yields_identifier.bind fun _ => yields_identifier.bind fun _ => yields_identifier.bind fun _ =>
    yields_amount.bind fun _ => yields_identifier.bind fun _ => yields_pure _

/-! ## What a scan finds -/

/-- The fields of a block are read where they stand. -/
theorem from?_eq {kind : BlockKind} {content : Scan Content} {width : Nat}
    {value : Bytes → Nat → Content} (yields : Yields content width value)
    (exact : width + 72 = kind.size)
    (read : ∀ bytes, Content.ofBytes? bytes kind = some (value bytes 0)) (bytes : Bytes) :
    from? kind content bytes
      = ((Block.ofBytes kind bytes).mapError ScanStop.refused).map Block.sealed := by
  unfold from? Block.ofBytes
  rw [read]
  by_cases short : bytes.length < kind.size
  · simp only [if_pos short]
    rfl
  · have scanned : block kind content ⟨bytes, 0⟩ = .ok _ :=
      (yields.bind fun _ => yields_signature.bind fun _ => (yields_work kind).bind fun _ =>
        yields_pure _) bytes 0 (by omega)
    have signaturePlace : kind.size - 72 = 0 + width := by omega
    have workPlace : kind.size - 8 = 0 + width + 64 := by omega
    simp only [if_neg short, scanned, signaturePlace, workPlace, SealedBlock.make_eq]
    rfl

theorem untyped_eq (kind : BlockKind) (bytes : Bytes) : untyped bytes kind
    = ((Block.ofBytes kind bytes).mapError ScanStop.refused).map Block.sealed := by
  cases kind with
  | send => exact from?_eq yields_send rfl (fun _ => rfl) bytes
  | receive => exact from?_eq yields_receive rfl (fun _ => rfl) bytes
  | opening => exact from?_eq yields_opening rfl (fun _ => rfl) bytes
  | change => exact from?_eq yields_change rfl (fun _ => rfl) bytes
  | state => exact from?_eq yields_state rfl (fun _ => rfl) bytes
  | invalid => rfl
  | notABlock => rfl

/-- A scan of a typed block ends as reading it does, with the hash beside the block; no field
reaches beyond the last byte. -/
theorem typed_eq (bytes : Bytes) : typed bytes
    = ((Block.ofTypedBytes bytes).mapError ScanStop.refused).map
        fun (block, used) => (block.sealed, used) := by
  cases bytes with
  | nil => rfl
  | cons code rest =>
    simp only [typed, Block.ofTypedBytes]
    cases BlockKind.ofCode? code with
    | none => rfl
    | some kind =>
      simp only [untyped_eq]
      cases Block.ofBytes kind rest <;> rfl

end Scan

end AccountChains
