import AccountChains.Block.Basic
import AccountChains.Hash.Blake2b

/-!
Contract: the hash of a block.

The hash covers what the block says and nothing else: not the signature, not the
work. A state block's input starts with a preamble of its own, so that it cannot
be read as the input of another kind.
-/

namespace AccountChains

/-- The 32 bytes that mark the input of a state block: the number of its kind. -/
def Content.statePreamble : Bytes := Bytes.bigEndian 32 6

theorem Content.length_statePreamble : Content.statePreamble.length = 32 :=
  Bytes.length_bigEndian 32 6

/-- The bytes that are hashed. -/
def Content.hashInput : Content → Bytes
  | .send content =>
    content.previous.toBytes ++ content.destination.toBytes ++ content.balance.toBytes
  | .receive content => content.previous.toBytes ++ content.source.toBytes
  | .opening content =>
    content.source.toBytes ++ content.representative.toBytes ++ content.account.toBytes
  | .change content => content.previous.toBytes ++ content.representative.toBytes
  | .state content =>
    Content.statePreamble ++ content.account.toBytes ++ content.previous.toBytes
      ++ content.representative.toBytes ++ content.balance.toBytes ++ content.link.toBytes

def Content.hash (content : Content) : BlockHash := ⟨Blake2b.digest256 content.hashInput⟩

/-- The hash of a block: it identifies the block everywhere. Nothing that is said about ledgers
depends on how it is computed, so no unification looks into it. -/
@[irreducible] def Block.hash (block : Block) : BlockHash := block.content.hash

end AccountChains
