import AccountChains.Store.Basic

/-!
Contract: what a store holds about given identifiers.

Some tables can be listed as a whole; the others can only be asked about one
identifier at a time. A survey asks them about every given identifier, in the given
order, and lists the rest. It stops at the first record that cannot be read.

Owns: `Contents`, `Store.survey`, and the identifiers that a block mentions.
-/

namespace AccountChains

structure Contents where
  accounts : List (Account × AccountRecord)
  blocks : List (BlockHash × StoredBlock)
  successors : List (BlockHash × BlockHash)
  frontiers : List (BlockHash × Account)
  receivables : List (ReceivableKey × Receivable)
  parked : List (ParkedKey × ParkedBlock)
  weights : List (Account × Amount)
  counts : TableCounts
  version : Option UInt32

/-- The identifiers that a block mentions, its own hash included. -/
def Block.mentioned (block : Block) : List Root :=
  [block.hash.asRoot, block.previous.asRoot, block.account.asRoot, block.source.asRoot,
    block.link.asRoot, (block.destination?.getD .zero).asRoot]

namespace Store

variable {σ : Type} [Store σ]

/-- What the tables that cannot be listed hold about one identifier. -/
def lookUp (store : σ) (found : Contents) (identifier : Root) : Except StoreError Contents := do
  let hash := identifier.asBlockHash
  let block ← block? store hash
  let successor ← successor? store hash
  let frontier ← frontier? store hash
  return { found with
    blocks := found.blocks ++ (block.map fun stored => (hash, stored)).toList
    successors := found.successors ++ (successor.map fun next => (hash, next)).toList
    frontiers := found.frontiers ++ (frontier.map fun account => (hash, account)).toList
    receivables := found.receivables ++ (← receivables store identifier.asAccount)
    parked := found.parked ++ (← parked store hash) }

/-- What a store holds about the given identifiers, and all that can be listed. -/
def survey (identifiers : List Root) (store : σ) : Except StoreError Contents := do
  let nothing : Contents := ⟨[], [], [], [], [], [], [], counts store, none⟩
  let found ← identifiers.foldlM (lookUp store) nothing
  return { found with
    accounts := ← accounts store
    weights := ← weights store
    version := ← version? store }

end Store

end AccountChains
