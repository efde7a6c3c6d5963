import AccountChains.Ledger.Constants
import AccountChains.Ledger.Step

/-!
Contract: questions about the chains in a store.

No query writes. A query about a block that is not there answers with nothing,
unless it needs a block that has to be there.

Owns: balances, owners, representatives, the occupant of a slot, the part a block
plays in a transfer, and what a block depends on. Does not own: voting weight,
which remembers more than the store.
-/

namespace AccountChains.Ledger

variable {σ : Type} [Store σ]

/-- The balance of its account after a block. -/
def balance? (store : σ) (hash : BlockHash) : Answer (Option Amount) := do
  return (← stored (Store.block? store hash)).map fun found => found.sideband.balance

def account? (store : σ) (hash : BlockHash) : Answer (Option Account) := do
  return (← stored (Store.block? store hash)).map fun found => found.sideband.account

def accountBalance (store : σ) (account : Account) : Answer Amount := do
  match ← stored (Store.account? store account) with
  | some record => return record.balance
  | none => return .zero

/-- The sum of what waits to be received by an account. -/
def accountReceivable (store : σ) (account : Account) : Answer Amount := do
  let waiting ← stored (Store.receivables store account)
  return waiting.foldl (fun sum entry => sum.wrappingAdd entry.2.amount) .zero

def latest? (store : σ) (account : Account) : Answer (Option BlockHash) := do
  return (← stored (Store.account? store account)).map AccountRecord.head

/-- The slot of an account's next block. -/
def latestRoot (store : σ) (account : Account) : Answer Root := do
  match ← stored (Store.account? store account) with
  | some record => return record.head.asRoot
  | none => return account.asRoot

/-- The amount that a block moved: the difference to the balance before it. -/
def amount? (store : σ) (hash : BlockHash) : Answer (Option Amount) := do
  match ← stored (Store.block? store hash) with
  | none => return none
  | some found =>
    let balance := found.sideband.balance
    let previous := found.block.previous
    if previous.isZero then return some balance
    let before ← required (← balance? store previous) (.blockNotFound previous)
    return some (if before < balance then balance.wrappingSub before
      else before.wrappingSub balance)

/-- Walk back from a block to one that names a representative, over at most `steps` blocks. -/
def walkToRepresentative (store : σ) : (steps : Nat) → BlockHash → Answer (Option BlockHash)
  | 0, _ => .error .endless
  | steps + 1, current => do
    if current.isZero then return none
    match ← stored (Store.block? store current) with
    | none => return none
    | some found =>
      if found.block.representative?.isSome then return some current
      walkToRepresentative store steps found.block.previous

/-- The last block at or before the given one that names a representative. A walk that does
not end visits each stored block at most once before it is back at one of them. -/
def representativeBlock? (store : σ) (hash : BlockHash) : Answer (Option BlockHash) :=
  walkToRepresentative store ((Store.counts store).blocks + 1) hash

def representativeOfBlock? (store : σ) (hash : BlockHash) : Answer (Option Account) := do
  return (← stored (Store.block? store hash)).bind fun found => found.block.representative?

def representative? (store : σ) (account : Account) : Answer (Option Account) := do
  match ← stored (Store.account? store account) with
  | some record => representativeOfBlock? store record.representativeBlock
  | none => return none

/-- The block that has the given slot. -/
def successor? (store : σ) (slot : QualifiedRoot) : Answer (Option BlockHash) := do
  if slot.previous.isZero then
    if let some record ← stored (Store.account? store slot.root.asAccount) then
      return some record.openBlock
  stored (Store.successor? store slot.previous)

/-- The block that has the slot of the given one. -/
def forkedBlock? (store : σ) (block : Block) : Answer (Option Block) := do
  match ← successor? store block.qualifiedRoot with
  | none => return none
  | some hash => return (← stored (Store.block? store hash)).map StoredBlock.block

/-- Whether a block spends: a send block always does, a state block if the balance falls. -/
def isSend (store : σ) (block : Block) : Answer Bool :=
  match block.content with
  | .send _ => return true
  | .state state => do
    if state.previous.isZero then return false
    return state.balance < (← balance? store state.previous).getD .zero
  | .receive _ | .opening _ | .change _ => return false

/-- The send that a block receives, zero if it receives nothing: the link of a state block
that does not spend, the source that any other block names. -/
def blockSource (store : σ) (block : Block) : Answer BlockHash :=
  match block.content with
  | .state state => do
    if ← isSend store block then return block.source
    return state.link.asBlockHash
  | .send _ | .receive _ | .opening _ | .change _ => return block.source

/-- The destination of a send, zero for any other block. -/
def blockDestination (store : σ) (block : Block) : Answer Account :=
  match block.content with
  | .send send => return send.destination
  | .state state => do
    if ← isSend store block then return state.link.asAccount
    return .zero
  | .receive _ | .opening _ | .change _ => return .zero

/-- What has to be there before a block: the block before it and the send it receives, each
zero if there is none. -/
def dependentBlocks (constants : LedgerConstants) (store : σ) (block : Block) :
    Answer (BlockHash × BlockHash) := do
  let source ← match block.content with
    | .receive receive => pure receive.source
    | .opening opening => pure opening.source
    | .state state =>
      if (← isSend store block) || constants.epochs.isEpochLink state.link then pure .zero
      else pure state.link.asBlockHash
    | .send _ | .change _ => pure .zero
  return (block.previous, source)

/-- Whether all that has to be there before a block is there. -/
def couldFit (constants : LedgerConstants) (store : σ) (block : Block) : Answer Bool := do
  let (previous, source) ← dependentBlocks constants store block
  return [previous, source].all fun dependency =>
    dependency.isZero || Store.hasBlock store dependency

end AccountChains.Ledger
