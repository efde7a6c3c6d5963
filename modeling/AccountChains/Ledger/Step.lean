import AccountChains.Store.Basic

/-!
Contract: what a ledger operation is, and how it can fail.

A query reads a store and answers or fails. A step may also write; it stops at
its first failure and keeps what it has written until then, so that the owner of
the transaction decides whether to discard it.

Failures are of three kinds. An error says what is wrong with the content of the
store. An overflow is a count or an amount that leaves its range. A walk is
endless if the store holds a cycle of predecessors. None of them is a verdict
about a block.

Owns: `LedgerError`, `Fault`, `Query`, `Step` and their composition.
-/

namespace AccountChains

inductive LedgerError where
  | blockNotFound (hash : BlockHash)
  /-- The head of a legacy chain belongs to an account without a record. -/
  | unknownFrontierAccount (account : Account)
  /-- A block that is to be undone belongs to an account without a record. -/
  | missingAccountRecord (hash : BlockHash)
  /-- A send no longer waits to be received, but its destination has no chain. -/
  | missingReceiver (send : BlockHash) (destination : Account)
  | storage (cause : StoreError)
deriving DecidableEq, Repr

def LedgerError.kind : LedgerError → String
  | .blockNotFound _ => "BlockNotFound"
  | .unknownFrontierAccount _ | .missingAccountRecord _ | .missingReceiver .. => "Inconsistent"
  | .storage _ => "Storage"

def LedgerError.message : LedgerError → String
  | .blockNotFound hash => "block not found: " ++ hash.render
  | .unknownFrontierAccount account =>
    "ledger inconsistency: frontier names unknown account " ++ account.render
  | .missingAccountRecord hash =>
    "ledger inconsistency: block " ++ hash.render ++ " has no account record"
  | .missingReceiver send destination =>
    "ledger inconsistency: send " ++ send.render ++ " was received but " ++ destination.render
      ++ " has no chain"
  | .storage cause => "storage error: " ++ cause.message

/-- Why an operation ends without an answer. -/
inductive Fault where
  | error (cause : LedgerError)
  | overflow (cause : Overflow)
  | endless
deriving DecidableEq, Repr

/-- An answer, or why there is none. -/
abbrev Answer (α : Type) := Except Fault α

/-- What a store answers, as an answer of the ledger. -/
def stored {α : Type} (result : Except StoreError α) : Answer α :=
  result.mapError fun cause => .error (.storage cause)

/-- The answer that something is wrong with the content of the store. -/
def inconsistent {α : Type} (cause : LedgerError) : Answer α := .error (.error cause)

/-- What an option holds, or an error. -/
def required {α : Type} (value : Option α) (cause : LedgerError) : Answer α :=
  match value with
  | some found => .ok found
  | none => inconsistent cause

/-- An operation that reads and writes a store of type `σ`. -/
def Step (σ α : Type) := σ → Answer α × σ

namespace Step

variable {σ α β : Type}

def run (step : Step σ α) (store : σ) : Answer α × σ := step store

/-- Do one step after another; a failure ends both, with what has been written so far. -/
def andThen (first : Step σ α) (next : α → Step σ β) : Step σ β := fun store =>
  match first store with
  | (.ok value, written) => next value written
  | (.error fault, written) => (.error fault, written)

instance : Monad (Step σ) where
  pure value := fun store => (.ok value, store)
  bind := andThen

def read (query : σ → Answer α) : Step σ α := fun store => (query store, store)

def write (change : σ → σ) : Step σ Unit := fun store => (.ok (), change store)

/-- Go on with an answer that needs no store. -/
def ofAnswer (answer : Answer α) : Step σ α := fun store => (answer, store)

@[simp] theorem run_pure (value : α) (store : σ) :
    (pure value : Step σ α).run store = (.ok value, store) := rfl

@[simp] theorem run_read (query : σ → Answer α) (store : σ) :
    (read query).run store = (query store, store) := rfl

@[simp] theorem run_write (change : σ → σ) (store : σ) :
    (write change).run store = (.ok (), change store) := rfl

theorem run_bind (first : Step σ α) (next : α → Step σ β) (store : σ) :
    (first >>= next).run store = match first.run store with
      | (.ok value, written) => (next value).run written
      | (.error fault, written) => (.error fault, written) := rfl

end Step

end AccountChains
