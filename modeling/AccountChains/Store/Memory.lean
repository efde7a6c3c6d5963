import AccountChains.Store.Basic

/-!
Contract: the store that keeps its tables as values.

Every read succeeds. Two such stores are equal exactly when all their tables
have the same lookups.
-/

namespace AccountChains

structure Tables where
  accounts : Table Account AccountRecord
  blocks : Table BlockHash StoredBlock
  successors : Table BlockHash BlockHash
  receivables : Table ReceivableKey Receivable
  frontiers : Table BlockHash Account
  weights : Table Account Amount
  parked : Table ParkedKey ParkedBlock
  version : Option UInt32

namespace Tables

/-- The store without entries and without a version. -/
def empty : Tables :=
  ⟨.empty, .empty, .empty, .empty, .empty, .empty, .empty, none⟩

/-- The weight of a representative, zero if none is kept. -/
def weight (tables : Tables) (representative : Account) : Amount :=
  (tables.weights.get? representative).getD .zero

/-- Keep a weight, unless it is zero. -/
def putWeight (representative : Account) (weight : Amount) (tables : Tables) : Tables :=
  { tables with
    weights :=
      if weight.isZero then tables.weights.erase representative
      else tables.weights.insert representative weight }

instance : Store Tables where
  account? tables account := .ok (tables.accounts.get? account)
  accounts tables := .ok tables.accounts.entries
  block? tables hash := .ok (tables.blocks.get? hash)
  hasBlock tables hash := tables.blocks.contains hash
  successor? tables hash := .ok (tables.successors.get? hash)
  receivable? tables key := .ok (tables.receivables.get? key)
  receivables tables account :=
    .ok (tables.receivables.scan ⟨account, .zero⟩ fun key => key.account == account)
  frontier? tables hash := .ok (tables.frontiers.get? hash)
  weight tables representative := .ok (tables.weight representative)
  weights tables := .ok tables.weights.entries
  parked tables dependency :=
    .ok (tables.parked.scan ⟨dependency, .zero⟩ fun key => key.dependency == dependency)
  hasParked tables key := tables.parked.contains key
  version? tables := .ok tables.version
  counts tables :=
    { accounts := tables.accounts.size
      blocks := tables.blocks.size
      receivables := tables.receivables.size
      frontiers := tables.frontiers.size
      parked := tables.parked.size }
  putAccount account record tables :=
    { tables with accounts := tables.accounts.insert account record }
  removeAccount account tables := { tables with accounts := tables.accounts.erase account }
  putBlock stored tables := { tables with blocks := tables.blocks.insert stored.hash stored }
  removeBlock hash tables := { tables with blocks := tables.blocks.erase hash }
  putSuccessor hash next tables := { tables with successors := tables.successors.insert hash next }
  removeSuccessor hash tables := { tables with successors := tables.successors.erase hash }
  putReceivable key record tables :=
    { tables with receivables := tables.receivables.insert key record }
  removeReceivable key tables := { tables with receivables := tables.receivables.erase key }
  putFrontier hash account tables :=
    { tables with frontiers := tables.frontiers.insert hash account }
  removeFrontier hash tables := { tables with frontiers := tables.frontiers.erase hash }
  putWeight := putWeight
  putParked key record tables := { tables with parked := tables.parked.insert key record }
  removeParked key tables := { tables with parked := tables.parked.erase key }
  putVersion version tables := { tables with version := some version }

end Tables

end AccountChains
