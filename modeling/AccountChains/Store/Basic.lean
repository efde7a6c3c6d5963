import AccountChains.Record.Basic

/-!
Contract: what the ledger asks of a store.

A store holds seven tables: accounts, blocks, the successor of each block, what
waits to be received, the heads of legacy chains, the weights of representatives,
and the blocks that wait for another one; and a version number. Reading may fail,
because a store may hold records that cannot be read; writing cannot. Listings
are in key order.

Owns: the operations (`Store`) and the causes of failure (`StoreError`). Does not
own: how the tables are kept, or transactions.
-/

namespace AccountChains

/-- The tables of a store, by the names they have on disk. -/
inductive TableName where
  | accounts
  | blocks
  | successors
  | pending
  | frontiers
  | representation
  | unchecked
  | metadata
deriving DecidableEq, Repr

def TableName.text : TableName → String
  | .accounts => "accounts"
  | .blocks => "blocks"
  | .successors => "successors"
  | .pending => "pending"
  | .frontiers => "frontiers"
  | .representation => "representation"
  | .unchecked => "unchecked"
  | .metadata => "meta"

def TableName.all : List TableName :=
  [.accounts, .blocks, .successors, .pending, .frontiers, .representation, .unchecked, .metadata]

def TableName.ofText? (text : String) : Option TableName :=
  all.find? fun table => table.text == text

/-- Why a store cannot answer. -/
inductive StoreError where
  /-- A record does not decode. -/
  | undecodable (table : TableName) (cause : RecordError)
  /-- A key or a value of fixed width has another width. -/
  | malformed (table : TableName)
  | versionMismatch (found expected : UInt32)
deriving DecidableEq, Repr

def StoreError.kind : StoreError → String
  | .undecodable .. => "Serialization"
  | .malformed _ | .versionMismatch .. => "Corruption"

/-- The text of an error. The block table names a failure to decode once, the other tables
name it twice. -/
def StoreError.message : StoreError → String
  | .undecodable .blocks cause => "serialization error: " ++ cause.message
  | .undecodable _ cause => "serialization error: serialization error: " ++ cause.message
  | .malformed table => "database is corrupted: malformed " ++ table.text ++ " record"
  | .versionMismatch found expected =>
    "database is corrupted: store version " ++ toString found.toNat ++ " does not match expected "
      ++ toString expected.toNat

structure TableCounts where
  accounts : Nat
  blocks : Nat
  receivables : Nat
  frontiers : Nat
  parked : Nat
deriving DecidableEq, Repr

/-- The operations on the state of a store. A weight of zero is not kept, and removing what is
absent changes nothing. -/
class Store (σ : Type) where
  account? : σ → Account → Except StoreError (Option AccountRecord)
  accounts : σ → Except StoreError (List (Account × AccountRecord))
  block? : σ → BlockHash → Except StoreError (Option StoredBlock)
  hasBlock : σ → BlockHash → Bool
  successor? : σ → BlockHash → Except StoreError (Option BlockHash)
  receivable? : σ → ReceivableKey → Except StoreError (Option Receivable)
  receivables : σ → Account → Except StoreError (List (ReceivableKey × Receivable))
  frontier? : σ → BlockHash → Except StoreError (Option Account)
  weight : σ → Account → Except StoreError Amount
  weights : σ → Except StoreError (List (Account × Amount))
  parked : σ → BlockHash → Except StoreError (List (ParkedKey × ParkedBlock))
  hasParked : σ → ParkedKey → Bool
  version? : σ → Except StoreError (Option UInt32)
  counts : σ → TableCounts
  putAccount : Account → AccountRecord → σ → σ
  removeAccount : Account → σ → σ
  putBlock : StoredBlock → σ → σ
  removeBlock : BlockHash → σ → σ
  putSuccessor : BlockHash → BlockHash → σ → σ
  removeSuccessor : BlockHash → σ → σ
  putReceivable : ReceivableKey → Receivable → σ → σ
  removeReceivable : ReceivableKey → σ → σ
  putFrontier : BlockHash → Account → σ → σ
  removeFrontier : BlockHash → σ → σ
  putWeight : Account → Amount → σ → σ
  putParked : ParkedKey → ParkedBlock → σ → σ
  removeParked : ParkedKey → σ → σ
  putVersion : UInt32 → σ → σ

namespace Store

variable {σ : Type} [Store σ]

/-- Whether an account has a record; the record has to be readable. -/
def hasAccount (store : σ) (account : Account) : Except StoreError Bool :=
  (account? store account).map Option.isSome

/-- Whether something waits under the key; its record has to be readable. -/
def hasReceivable (store : σ) (key : ReceivableKey) : Except StoreError Bool :=
  (receivable? store key).map Option.isSome

/-- Whether anything waits for the account; all its records have to be readable. -/
def hasAnyReceivable (store : σ) (account : Account) : Except StoreError Bool :=
  (receivables store account).map fun entries => !entries.isEmpty

/-- The version of the layout that this library reads and writes. -/
def currentVersion : UInt32 := 1

end Store

end AccountChains
