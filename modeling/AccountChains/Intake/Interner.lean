import AccountChains.Block.Hash
import AccountChains.Table

/-!
Contract: one shared copy of each block in flight.

A block that is offered while a copy of it is still held by someone is replaced
by that copy. Two blocks count as the same if their hash, signature and work have
the same digest. The interner does not keep a copy alive: whoever calls it says
which copies are still held. Entries of copies that nobody holds are removed once
in 256 insertions.

Owns: `Handle` and `Interner.intern`. Does not own: who holds what.
-/

namespace AccountChains

/-- A copy of a block. The number tells copies apart. -/
structure Handle where
  number : Nat
  block : Block
deriving DecidableEq, Repr

/-- The copies that may be shared, by the digest of their content. -/
structure Interner where
  entries : Table (BitVec 256) Handle
  insertions : Nat

namespace Interner

def empty : Interner := ⟨.empty, 0⟩

/-- After this many insertions the entries that nobody holds are removed. -/
def sweepInterval : Nat := 256

/-- The digest of all that makes a block what it is, its signature and work included. -/
def digest (block : Block) : BitVec 256 :=
  Blake2b.digest256
    (block.hash.toBytes ++ block.signature.toBytes ++ Bytes.littleEndian 8 block.work.toNat)

def size (interner : Interner) : Nat := interner.entries.size

/-- Remove the entries of copies that nobody holds. -/
def sweep (isHeld : Handle → Bool) (interner : Interner) : Interner :=
  { interner with entries := interner.entries.restrict fun _ handle => isHeld handle }

/-- Make an offered copy the one to share. It is held by whoever offers it. -/
def enter (isHeld : Handle → Bool) (offered : Handle) (interner : Interner) : Interner :=
  let entered : Interner :=
    ⟨interner.entries.insert (digest offered.block) offered, interner.insertions + 1⟩
  if entered.insertions % sweepInterval = 0 then
    entered.sweep fun handle => handle == offered || isHeld handle
  else entered

/-- The copy to use for an offered one: a copy that is held, else the offered one. -/
def intern (isHeld : Handle → Bool) (offered : Handle) (interner : Interner) :
    Handle × Interner :=
  match interner.entries.get? (digest offered.block) with
  | some shared =>
    if isHeld shared then (shared, interner) else (offered, interner.enter isHeld offered)
  | none => (offered, interner.enter isHeld offered)

end Interner

end AccountChains
