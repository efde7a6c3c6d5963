import AccountChains.Ledger.Process

/-!
Contract: undoing blocks.

Only the head of a chain can be undone, so everything after a block goes first. A
send that has been received cannot be undone before its receiver, so the head of
the receiving chain is undone first and the send is tried again.

To undo a head, what it did is computed from the block, its sideband and the
block before it (`Reversal`), and then taken back. Every undone hash is recorded
in the order of removal, also if the operation fails later.

Owns: `Reversal`, its plan and its application, `rollback`. Does not own: which
blocks should be undone.
-/

namespace AccountChains.Ledger

variable {σ : Type} [Store σ]

/-- What takes back the head of a chain. -/
structure Reversal where
  hash : BlockHash
  account : Account
  removeReceivable : Option ReceivableKey
  addReceivable : Option (ReceivableKey × Receivable)
  /-- The account's record without the head; without a head of its own it removes the account. -/
  record : AccountRecord
  removeFrontier : Option BlockHash
  addFrontier : Option (BlockHash × Account)
  clearSuccessor : Option BlockHash
  /-- The representative that loses weight. -/
  losesWeight : Account × Amount
  /-- The representative that gets weight back. -/
  regainsWeight : Option (Account × Amount)
deriving DecidableEq, Repr

/-- What has to happen next to undo a block. -/
inductive UndoStep where
  | reverse (reversal : Reversal)
  /-- Another chain has to lose its head first. -/
  | dependency (head : BlockHash)
deriving DecidableEq, Repr

def requiredBlock (store : σ) (hash : BlockHash) : Answer StoredBlock := do
  required (← stored (Store.block? store hash)) (.blockNotFound hash)

/-- The part a stored block plays in a transfer: whether it sends and whether it receives. -/
def transferRoles (head : StoredBlock) : Bool × Bool :=
  match head.block.content with
  | .send _ => (true, false)
  | .receive _ | .opening _ => (false, true)
  | .change _ => (false, false)
  | .state _ => (head.sideband.details.isSend, head.sideband.details.isReceive)

/-- What taking back the head means for what waits to be received. -/
inductive TransferUndo where
  /-- The send has been received: the head of this chain has to go first. -/
  | blocked (head : BlockHash)
  | remove (key : ReceivableKey)
  | restore (key : ReceivableKey) (receivable : Receivable)
  | nothing
deriving DecidableEq, Repr

/-- Find out what taking back the head means for what waits to be received. -/
def transferUndo (store : σ) (account : Account) (record : AccountRecord) (head : StoredBlock)
    (previousBalance : Amount) : Answer TransferUndo := do
  let (isSend, isReceive) := transferRoles head
  if isSend then
    let destination ← blockDestination store head.block
    let key : ReceivableKey := ⟨destination, head.hash⟩
    if ← stored (Store.hasReceivable store key) then return .remove key
    return .blocked (← required (← latest? store destination)
      (.missingReceiver head.hash destination))
  if isReceive then
    let source ← blockSource store head.block
    let sender := (← account? store source).getD .zero
    return .restore ⟨account, source⟩
      ⟨sender, record.balance.wrappingSub previousBalance, head.sideband.sourceEpoch⟩
  return .nothing

/-- The record of an account without its head, when a block precedes the head; and the
representative that gets its weight back. -/
def recordBefore (store : σ) (record : AccountRecord) (previousHash : BlockHash)
    (previous : StoredBlock) : Answer (AccountRecord × Account) := do
  let representativeBlock ←
    required (← representativeBlock? store previousHash) (.blockNotFound previousHash)
  let representative := (← representativeOfBlock? store representativeBlock).getD .zero
  if record.blockCount = 0 then .error (.overflow .subtraction)
  return (
    { head := previousHash, representativeBlock, openBlock := record.openBlock,
      balance := previous.sideband.balance, modified := previous.sideband.timestamp,
      blockCount := record.blockCount - 1, epoch := previous.sideband.details.epoch },
    representative)

/-- Plan how to take back the head of an account. -/
def planUndo (store : σ) (account : Account) (record : AccountRecord) (head : StoredBlock) :
    Answer UndoStep := do
  let previousHash := head.block.previous
  let previous ← if previousHash.isZero then pure none
    else some <$> requiredBlock store previousHash
  let previousBalance := (previous.map fun found => found.sideband.balance).getD .zero
  let transfer ← transferUndo store account record head previousBalance
  if let .blocked dependency := transfer then return .dependency dependency
  let representative := (← representativeOfBlock? store record.representativeBlock).getD .zero
  let before ← match previous with
    | none => pure none
    | some found => some <$> recordBefore store record previousHash found
  let isLegacy := fun (found : StoredBlock) => found.block.kind.isLegacy
  return .reverse {
    hash := head.hash
    account
    removeReceivable := match transfer with
      | .remove key => some key
      | _ => none
    addReceivable := match transfer with
      | .restore key receivable => some (key, receivable)
      | _ => none
    record := (before.map Prod.fst).getD .blank
    removeFrontier := if isLegacy head then some head.hash else none
    addFrontier := if previous.any isLegacy then some (previousHash, account) else none
    clearSuccessor := if previous.isSome then some previousHash else none
    losesWeight := (representative, record.balance)
    regainsWeight := before.map fun found => (found.2, previousBalance) }

/-- Write for every value of an option. -/
def writeFor {α : Type} (value : Option α) (change : α → σ → σ) : Step σ Unit :=
  match value with
  | some found => .write (change found)
  | none => pure ()

def Reversal.apply (reversal : Reversal) : Step σ Unit := do
  writeFor reversal.removeReceivable Store.removeReceivable
  writeFor reversal.addReceivable fun entry => Store.putReceivable entry.1 entry.2
  subtractWeight reversal.losesWeight.1 reversal.losesWeight.2
  if let some (representative, amount) := reversal.regainsWeight then
    addWeight representative amount
  updateAccount reversal.account reversal.record
  Step.write (Store.removeBlock reversal.hash)
  writeFor reversal.removeFrontier Store.removeFrontier
  writeFor reversal.addFrontier fun entry => Store.putFrontier entry.1 entry.2
  writeFor reversal.clearSuccessor Store.removeSuccessor

/-- How far undoing got: the store, the hashes undone in order, and whether it came to its end. -/
structure Undoing (σ : Type) where
  store : σ
  undone : List BlockHash
  outcome : Answer Unit

/-- Put hashes that were undone before in front. -/
def Undoing.after (undone : List BlockHash) (undoing : Undoing σ) : Undoing σ :=
  { undoing with undone := undone ++ undoing.undone }

/-- The owner of a block that is to be undone. -/
def ownerToUndo (store : σ) (hash : BlockHash) : Answer Account := do
  if !Store.hasBlock store hash then inconsistent (.blockNotFound hash)
  required (← account? store hash) (.blockNotFound hash)

/-- The record of an account that is about to lose its head, the head's hash and what to do. -/
def nextUndo (store : σ) (hash : BlockHash) (account : Account) :
    Answer (BlockHash × UndoStep) := do
  let record ← required (← stored (Store.account? store account)) (.missingAccountRecord hash)
  let head ← requiredBlock store record.head
  return (record.head, ← planUndo store account record head)

/-- Undo heads of an account until a block is gone; at most `depth` steps deep. -/
def unwind : (depth : Nat) → BlockHash → Account → σ → Undoing σ
  | 0, _, _, store => ⟨store, [], .error .endless⟩
  | depth + 1, hash, account, store =>
    if !Store.hasBlock store hash then ⟨store, [], .ok ()⟩
    else
      match nextUndo store hash account with
      | .error fault => ⟨store, [], .error fault⟩
      | .ok (head, .reverse reversal) =>
        match reversal.apply.run store with
        | (.error fault, written) => ⟨written, [], .error fault⟩
        | (.ok (), written) => (unwind depth hash account written).after [head]
      | .ok (_, .dependency dependency) =>
        match ownerToUndo store dependency with
        | .error fault => ⟨store, [], .error fault⟩
        | .ok owner =>
          let first := unwind depth dependency owner store
          match first.outcome with
          | .error _ => first
          | .ok () => (unwind depth hash account first.store).after first.undone

/-- A depth that undoing does not reach, unless it runs in a circle: between two removals it
goes through each stored block at most once. -/
def undoDepth (store : σ) : Nat :=
  let blocks := (Store.counts store).blocks
  (blocks + 1) * (blocks + 2)

def rollback (hash : BlockHash) (store : σ) : Undoing σ :=
  match ownerToUndo store hash with
  | .error fault => ⟨store, [], .error fault⟩
  | .ok account => unwind (undoDepth store) hash account store

end AccountChains.Ledger
