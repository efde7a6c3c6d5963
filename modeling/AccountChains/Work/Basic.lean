import AccountChains.Block.Basic
import AccountChains.Hash.Blake2b

/-!
Contract: proof of work for blocks.

A nonce has a value for every root; it is enough if the value reaches a
threshold, which depends on the network.
-/

namespace AccountChains

namespace Work

def value (root : Root) (nonce : UInt64) : UInt64 :=
  Blake2b.digest64 (Bytes.littleEndian 8 nonce.toNat ++ root.toBytes)

def reaches (root : Root) (nonce threshold : UInt64) : Bool :=
  threshold ≤ value root nonce

end Work

/-- The networks, each with its own price for a block. -/
inductive Network where
  | live
  | beta
  | dev
deriving DecidableEq, Repr

/-- The least work value a block may have. Zero accepts every block. -/
structure WorkThreshold where
  publish : UInt64
deriving DecidableEq, Repr

namespace WorkThreshold

def ofNetwork : Network → WorkThreshold
  | .live => ⟨0xffffffc000000000⟩
  | .beta => ⟨0xfffff00000000000⟩
  | .dev => ⟨0xfe00000000000000⟩

/-- The threshold where no network is named. -/
def standard : WorkThreshold := ofNetwork .live

/-- Whether the block carries enough work for its slot. -/
def accepts (threshold : WorkThreshold) (block : Block) : Bool :=
  Work.reaches block.root block.work threshold.publish

end WorkThreshold

end AccountChains
