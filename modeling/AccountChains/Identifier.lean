import AccountChains.Hex

/-!
Contract: the 256-bit identifiers of the ledger.

A block hash, an account (a public key), a link and a root are all 256-bit
values, written as 32 bytes, most significant first. They are distinct types, so
that one cannot stand where another is expected; the protocol's own
reinterpretations are the `as…` functions, which keep the value.

Owns: order (that of the byte strings), byte and text forms, reinterpretation,
the qualified root. Does not own: how any of them is computed.
-/

namespace AccountChains

/-- What a 256-bit value identifies. -/
inductive IdentifierKind where
  | blockHash
  | account
  | link
  | root
deriving DecidableEq, Repr

/-- A 256-bit value that identifies something of the given kind. -/
structure Identifier (kind : IdentifierKind) where
  value : BitVec 256
deriving DecidableEq, Repr

/-- The hash of what a block says; it identifies the block everywhere. -/
abbrev BlockHash := Identifier .blockHash

/-- An account is its public key. -/
abbrev Account := Identifier .account

/-- The field of a state block that names a destination, a source or an epoch. -/
abbrev Link := Identifier .link

/-- The slot a block takes: its predecessor, or the account for the first block of a chain. -/
abbrev Root := Identifier .root

namespace Identifier

variable {kind : IdentifierKind}

instance : Inhabited (Identifier kind) := ⟨⟨0⟩⟩

instance : Ord (Identifier kind) := ⟨compareOn Identifier.value⟩

instance : Std.TransOrd (Identifier kind) :=
  inferInstanceAs (Std.TransCmp (compareOn Identifier.value))

instance : Std.LawfulEqOrd (Identifier kind) where
  eq_of_compare {left right} equal := by
    cases left
    cases right
    exact congrArg Identifier.mk (Std.LawfulEqOrd.eq_of_compare equal)

/-- The identifier that stands for "none". -/
def zero : Identifier kind := ⟨0⟩

def isZero (identifier : Identifier kind) : Bool := identifier.value == 0

@[simp] theorem isZero_iff (identifier : Identifier kind) :
    identifier.isZero = true ↔ identifier = zero := by
  cases identifier
  simp [isZero, zero]

@[simp] theorem isZero_eq_false_iff (identifier : Identifier kind) :
    identifier.isZero = false ↔ identifier ≠ zero := by
  rw [← Bool.not_eq_true, isZero_iff]

/-- The identifier with a small number, for numbered examples. -/
def ofNumber (number : UInt64) : Identifier kind := ⟨BitVec.ofNat 256 number.toNat⟩

def asBlockHash (identifier : Identifier kind) : BlockHash := ⟨identifier.value⟩

def asAccount (identifier : Identifier kind) : Account := ⟨identifier.value⟩

def asLink (identifier : Identifier kind) : Link := ⟨identifier.value⟩

def asRoot (identifier : Identifier kind) : Root := ⟨identifier.value⟩

def toBytes (identifier : Identifier kind) : Bytes := Bytes.ofWord 32 identifier.value

/-- The identifier with the given 32 bytes, most significant first. -/
def ofBytes (bytes : Bytes) : Identifier kind := ⟨Bytes.toWord 32 bytes⟩

/-- The identifier in the first 32 bytes, when there are that many. -/
def ofBytes? (bytes : Bytes) : Option (Identifier kind) :=
  if 32 ≤ bytes.length then some (ofBytes (bytes.take 32)) else none

@[simp] theorem length_toBytes (identifier : Identifier kind) :
    identifier.toBytes.length = 32 :=
  Bytes.length_ofWord 32 identifier.value

theorem drop_toBytes (identifier : Identifier kind) {count : Nat} (beyond : 32 ≤ count) :
    identifier.toBytes.drop count = [] := by
  simp [beyond]

@[simp] theorem ofBytes_toBytes (identifier : Identifier kind) :
    ofBytes identifier.toBytes = identifier :=
  congrArg Identifier.mk (Bytes.toWord_ofWord 32 identifier.value)

theorem toBytes_ofBytes {bytes : Bytes} (exact : bytes.length = 32) :
    (ofBytes bytes : Identifier kind).toBytes = bytes :=
  Bytes.ofWord_toWord exact

theorem toBytes_injective {left right : Identifier kind} (same : left.toBytes = right.toBytes) :
    left = right := by
  rw [← ofBytes_toBytes left, same, ofBytes_toBytes]

def render (identifier : Identifier kind) : String := Hex.renderUpper identifier.toBytes

def parse (text : String) : Except Hex.Error (Identifier kind) :=
  (Hex.decodeExact 32 (Hex.codes text)).map ofBytes

/-- The name shown for a kind of identifier. -/
def kindName : IdentifierKind → String
  | .blockHash => "BlockHash"
  | .account => "Account"
  | .link => "Link"
  | .root => "Root"

/-- The kind and the first four bytes, for diagnostics. -/
def summary (identifier : Identifier kind) : String :=
  kindName kind ++ "(" ++ Hex.render (identifier.toBytes.take 4) ++ "…)"

end Identifier

/-- The slot a block competes for: two different blocks exclude each other exactly when
their qualified roots are equal. -/
structure QualifiedRoot where
  root : Root
  previous : BlockHash
deriving DecidableEq, Repr

/-- Qualified roots are ordered by root, then by predecessor. -/
instance : Ord QualifiedRoot :=
  ⟨compareLex (compareOn QualifiedRoot.root) (compareOn QualifiedRoot.previous)⟩

end AccountChains
