/-!
Contract: committed state, one open write transaction, and snapshots.

A write transaction works on a copy of the committed state; committing puts the
copy in the place of the committed state, aborting drops it. A snapshot keeps the
committed state of the moment it is taken. Writes outside a transaction get one of
their own, committed only if they succeed.

The state is any type: nothing here depends on what is stored.
-/

namespace AccountChains

/-- The committed state of a store with what is open on it. -/
structure Database (σ : Type) where
  committed : σ
  transaction : Option σ
  snapshot : Option σ

namespace Database

variable {σ ε α : Type}

def ofState (state : σ) : Database σ := ⟨state, none, none⟩

def begin (database : Database σ) : Database σ :=
  { database with transaction := some database.committed }

/-- Make what the open transaction wrote the committed state. -/
def commit (database : Database σ) : Database σ :=
  { database with
    committed := database.transaction.getD database.committed
    transaction := none }

def abort (database : Database σ) : Database σ := { database with transaction := none }

/-- Keep the committed state for later reads. -/
def takeSnapshot (database : Database σ) : Database σ :=
  { database with snapshot := some database.committed }

def releaseSnapshot (database : Database σ) : Database σ := { database with snapshot := none }

/-- The state that a read sees when it does not ask for another: that of the open transaction,
else the committed one. -/
def current (database : Database σ) : σ := database.transaction.getD database.committed

/-- Run an operation on the open transaction, which keeps whatever the operation wrote even if
it fails. Without an open transaction the operation gets one of its own, which is committed
only if the operation succeeds. -/
def perform (database : Database σ) (operation : σ → Except ε α × σ) :
    Except ε α × Database σ :=
  match database.transaction with
  | some state =>
    let (result, written) := operation state
    (result, { database with transaction := some written })
  | none =>
    match operation database.committed with
    | (.ok value, written) => (.ok value, { database with committed := written })
    | (.error cause, _) => (.error cause, database)

end Database

end AccountChains
