import AccountChains.Ledger.Process
import AccountChains.Ledger.Rollback
import AccountChains.Ledger.Weight
import AccountChains.Store.Database

/-!
Contract: the ledger on a database, for one caller at a time.

Every operation that writes does so in the open transaction, or in one of its own
that is committed only if it succeeds. The snapshot of weights belongs to no
transaction.

Owns: `Session` and its operations. Does not own: what the operations do to a store.
-/

namespace AccountChains

/-- A database with the weights that may stand in for those of the ledger. -/
structure Session (σ : Type) where
  database : Database σ
  weights : Ledger.WeightSnapshot

namespace Session

variable {σ α : Type}

/-- A session on a committed state. -/
def ofState (constants : LedgerConstants) (state : σ) : Session σ :=
  ⟨.ofState state, .none constants.bootstrapMaxBlocks⟩

def perform (step : Step σ α) (session : Session σ) : Answer α × Session σ :=
  let (result, database) := session.database.perform step.run
  (result, { session with database })

def write (change : σ → σ) (session : Session σ) : Session σ :=
  (session.perform (.write change)).2

variable [Store σ]

/-- Write the genesis block, unless there are blocks already. -/
def establish (constants : LedgerConstants) (now : Timestamp) (session : Session σ) :
    Answer Bool × Session σ :=
  session.perform (Ledger.establish constants now)

def process (constants : LedgerConstants) (now : Timestamp) (hint : Verification) (block : Block)
    (session : Session σ) : Answer Receipt × Session σ :=
  session.perform (Ledger.process constants now hint block)

/-- Undo blocks until a block is gone. The answer says which were undone, also if it fails. -/
def rollback (hash : BlockHash) (session : Session σ) :
    List BlockHash × Answer Unit × Session σ :=
  let undoing := Ledger.rollback hash session.database.current
  let (result, session) := session.perform fun _ => (undoing.outcome, undoing.store)
  (undoing.undone, result, session)

/-- The voting weight of a representative in a given state of the store. -/
def weight (state : σ) (representative : Account) (session : Session σ) :
    Answer Amount × Session σ :=
  let (result, weights) := Ledger.weight session.weights state representative
  (result, { session with weights })

end Session

end AccountChains
