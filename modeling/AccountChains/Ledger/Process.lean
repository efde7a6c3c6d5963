import AccountChains.Ledger.Query
import AccountChains.Ledger.Verdict

/-!
Contract: taking a block into the ledger.

First the block is judged: its checks are made in a fixed order, the first one
that fails decides the verdict, and nothing is written. A block that passes is
described by an `Entry`, which says what kind of step it is for its account. Then
the entry is committed: the block with its sideband, the link from the block
before it, the record of its account, what waits to be received, the weights of
representatives, and the head of a legacy chain.

A hint says what is already known about the signature. A hint that vouches for
the key that has to be checked replaces the check.

Owns: `judge`, `Entry.commit`, `process`, and the genesis block of an empty
ledger. Does not own: undoing.
-/

namespace AccountChains.Ledger

variable {σ : Type}

/-- What an accepted block does to its account. -/
inductive Entry where
  | send (account : Account) (record : AccountRecord) (content : SendContent)
  | receive (account : Account) (record : AccountRecord) (content : ReceiveContent)
      (receivable : Receivable)
  | opening (content : OpeningContent) (receivable : Receivable)
  | change (account : Account) (record : AccountRecord) (content : ChangeContent)
  /-- A state block that sends, receives or only names a representative. -/
  | transfer (existing : Option AccountRecord) (content : StateContent) (details : BlockDetails)
      (amount : Amount) (sourceEpoch : Epoch)
  /-- A state block that moves its account to another epoch. -/
  | upgrade (existing : Option AccountRecord) (content : StateContent) (epoch : Epoch)
deriving DecidableEq, Repr

/-- What judging a block comes to. -/
inductive Judgement where
  | refused (receipt : Receipt)
  | accepted (entry : Entry)
deriving DecidableEq, Repr

/-- Refuse a block about which nothing but its signature is known. -/
def refuse (verdict : Verdict) (verified : Verification) : Judgement :=
  .refused ⟨verdict, .zero, .zero, .zero, verified, .zero⟩

/-- Refuse a block of an account whose balance is known. -/
def refuseAfter (verdict : Verdict) (verified : Verification) (balance : Amount) : Judgement :=
  .refused ⟨verdict, .zero, .zero, .zero, verified, balance⟩

/-- Whether the signature may be taken for the signer's: the hint vouches for it, or the
signer's key accepts it. -/
def isVouchedOrSigned (hint vouched : Verification) (block : Block) (signer : Account) : Bool :=
  hint == vouched || block.isSignedBy signer

section Judging

variable [Store σ]

/-- The record of the account that a head of a legacy chain names. -/
def frontierRecord (store : σ) (account : Account) : Answer AccountRecord := do
  required (← stored (Store.account? store account)) (.unknownFrontierAccount account)

def judgeSend (hint : Verification) (block : Block) (content : SendContent) (store : σ) :
    Answer Judgement := do
  if Store.hasBlock store block.hash then return refuse .old hint
  let some previous ← stored (Store.block? store content.previous)
    | return refuse .gapPrevious hint
  if !block.mayFollow previous.block.kind then return refuse .blockPosition hint
  -- Only the head of a legacy chain has a frontier.
  let some account ← stored (Store.frontier? store content.previous)
    | return refuse .fork hint
  if !isVouchedOrSigned hint .valid block account then return refuse .badSignature hint
  let record ← frontierRecord store account
  if record.balance < content.balance then return refuse .negativeSpend .valid
  return .accepted (.send account record content)

def judgeReceive (hint : Verification) (block : Block) (content : ReceiveContent) (store : σ) :
    Answer Judgement := do
  if Store.hasBlock store block.hash then return refuse .old hint
  let some previous ← stored (Store.block? store content.previous)
    | return refuse .gapPrevious hint
  if !block.mayFollow previous.block.kind then return refuse .blockPosition hint
  let some account ← stored (Store.frontier? store content.previous)
    | return refuse .fork hint
  if !isVouchedOrSigned hint .valid block account then return refuse .badSignature hint
  if !Store.hasBlock store content.source then return refuse .gapSource .valid
  let record ← frontierRecord store account
  if record.head ≠ content.previous then return refuse .gapPrevious .valid
  let some receivable ← stored (Store.receivable? store ⟨account, content.source⟩)
    | return refuse .unreceivable .valid
  -- A legacy block cannot take what an upgraded account sent.
  if receivable.epoch ≠ .zero then return refuse .unreceivable .valid
  return .accepted (.receive account record content receivable)

def judgeOpening (constants : LedgerConstants) (hint : Verification) (block : Block)
    (content : OpeningContent) (store : σ) : Answer Judgement := do
  if Store.hasBlock store block.hash then return refuse .old hint
  if !isVouchedOrSigned hint .valid block content.account then return refuse .badSignature hint
  if !Store.hasBlock store content.source then return refuse .gapSource .valid
  if ← stored (Store.hasAccount store content.account) then return refuse .fork .valid
  let some receivable ← stored (Store.receivable? store ⟨content.account, content.source⟩)
    | return refuse .unreceivable .valid
  if content.account = constants.burnAccount then return refuse .openedBurnAccount .valid
  if receivable.epoch ≠ .zero then return refuse .unreceivable .valid
  return .accepted (.opening content receivable)

def judgeChange (hint : Verification) (block : Block) (content : ChangeContent) (store : σ) :
    Answer Judgement := do
  if Store.hasBlock store block.hash then return refuse .old hint
  let some previous ← stored (Store.block? store content.previous)
    | return refuse .gapPrevious hint
  if !block.mayFollow previous.block.kind then return refuse .blockPosition hint
  let some account ← stored (Store.frontier? store content.previous)
    | return refuse .fork hint
  let record ← frontierRecord store account
  if !isVouchedOrSigned hint .valid block account then return refuse .badSignature hint
  return .accepted (.change account record content)

/-- Judge a state block that sends, receives or only names a representative. -/
def judgeTransfer (hint : Verification) (block : Block) (content : StateContent) (store : σ) :
    Answer Judgement := do
  if Store.hasBlock store block.hash then return refuse .old hint
  if !isVouchedOrSigned hint .valid block content.account then return refuse .badSignature hint
  if content.account.isZero then return refuse .openedBurnAccount .valid
  let existing ← stored (Store.account? store content.account)
  let before := (existing.map AccountRecord.balance).getD .zero
  if let some record := existing then
    if content.previous.isZero then return refuseAfter .fork .valid before
    if !Store.hasBlock store content.previous then return refuseAfter .gapPrevious .valid before
    if content.previous ≠ record.head then return refuseAfter .fork .valid before
  else
    if !content.previous.isZero then return refuse .gapPrevious .valid
    if content.link.isZero then return refuse .gapSource .valid
  let epoch := (existing.map AccountRecord.epoch).getD .zero
  let isSend := existing.isSome && decide (content.balance < before)
  let details : BlockDetails := ⟨epoch, isSend, !isSend && !content.link.isZero, false⟩
  if isSend then
    return .accepted (.transfer existing content details (before.wrappingSub content.balance) .zero)
  let amount := content.balance.wrappingSub before
  if content.link.isZero then
    -- Without a link only the representative may change.
    if !amount.isZero then return refuseAfter .balanceMismatch .valid before
    return .accepted (.transfer existing content details amount .zero)
  if !Store.hasBlock store content.link.asBlockHash then
    return refuseAfter .gapSource .valid before
  let some receivable ←
      stored (Store.receivable? store ⟨content.account, content.link.asBlockHash⟩)
    | return refuseAfter .unreceivable .valid before
  if amount ≠ receivable.amount then return refuseAfter .balanceMismatch .valid before
  let details := { details with epoch := epoch.later receivable.epoch }
  return .accepted (.transfer existing content details amount receivable.epoch)

def judgeUpgrade (constants : LedgerConstants) (hint : Verification) (block : Block)
    (content : StateContent) (store : σ) : Answer Judgement := do
  if Store.hasBlock store block.hash then return refuse .old hint
  let signer := (constants.epochs.signer? content.link).getD .zero
  if !isVouchedOrSigned hint .validEpoch block signer then return refuse .badSignature hint
  if content.account.isZero then return refuse .openedBurnAccount .validEpoch
  let existing ← stored (Store.account? store content.account)
  let before := (existing.map AccountRecord.balance).getD .zero
  if let some record := existing then
    if content.previous.isZero || content.previous ≠ record.head then
      return refuseAfter .fork .validEpoch before
    let representative ← representativeOfBlock? store record.representativeBlock
    if representative ≠ some content.representative then
      return refuseAfter .representativeMismatch .validEpoch before
  else
    if !content.previous.isZero then return refuse .gapPrevious .validEpoch
    if !content.representative.isZero then return refuse .representativeMismatch .validEpoch
  let some epoch := constants.epochs.epoch? content.link
    | return refuseAfter .blockPosition .validEpoch before
  -- An account that has not been opened may start in any epoch.
  if let some record := existing then
    if !record.epoch.isSequential epoch then return refuseAfter .blockPosition .validEpoch before
  if content.balance ≠ before then return refuseAfter .balanceMismatch .validEpoch before
  return .accepted (.upgrade existing content epoch)

/-- Refuse a block with an epoch link whose predecessor is missing. Without a hint the block has
to be signed by the account or by the epoch signer, and the receipt says by which. -/
def refuseEpochGap (constants : LedgerConstants) (hint : Verification) (block : Block)
    (content : StateContent) : Judgement :=
  if hint ≠ .unknown then refuse .gapPrevious hint
  else if block.isSignedBy content.account then refuse .gapPrevious .valid
  else if block.isSignedBy ((constants.epochs.signer? content.link).getD .zero) then
    refuse .gapPrevious .validEpoch
  else refuse .badSignature .invalid

/-- Judge a state block. A block with an epoch link is an epoch block only if it leaves the
balance as it is; else the link is the destination of a send. -/
def judgeState (constants : LedgerConstants) (hint : Verification) (block : Block)
    (content : StateContent) (store : σ) : Answer Judgement := do
  if !constants.epochs.isEpochLink content.link then
    return ← judgeTransfer hint block content store
  let before ← if content.previous.isZero then pure (some .zero)
    else balance? store content.previous
  match before with
  | none => return refuseEpochGap constants hint block content
  | some balance =>
    if content.balance = balance then judgeUpgrade constants hint block content store
    else judgeTransfer hint block content store

def judge (constants : LedgerConstants) (hint : Verification) (block : Block) (store : σ) :
    Answer Judgement :=
  match block.content with
  | .send content => judgeSend hint block content store
  | .receive content => judgeReceive hint block content store
  | .opening content => judgeOpening constants hint block content store
  | .change content => judgeChange hint block content store
  | .state content => judgeState constants hint block content store

end Judging

/-! ## Committing -/

def Entry.receipt : Entry → Receipt
  | .send account record content =>
    { verdict := .progress
      account
      amount := record.balance.wrappingSub content.balance
      destination := content.destination
      verified := .valid
      previousBalance := record.balance }
  | .receive account record _ receivable =>
    { verdict := .progress
      account
      amount := receivable.amount
      destination := .zero
      verified := .valid
      previousBalance := record.balance }
  | .opening content receivable =>
    { verdict := .progress
      account := content.account
      amount := receivable.amount
      destination := .zero
      verified := .valid
      previousBalance := .zero }
  | .change account record _ =>
    { verdict := .progress
      account
      amount := .zero
      destination := .zero
      verified := .valid
      previousBalance := record.balance }
  | .transfer existing content details amount _ =>
    { verdict := .progress
      account := content.account
      amount
      destination := if details.isSend then content.link.asAccount else .zero
      verified := .valid
      previousBalance := (existing.map AccountRecord.balance).getD .zero }
  | .upgrade existing content _ =>
    { verdict := .progress
      account := content.account
      amount := .zero
      destination := .zero
      verified := .validEpoch
      previousBalance := (existing.map AccountRecord.balance).getD .zero }

section Committing

variable [Store σ]

/-- The count of an account's blocks with one more. -/
def nextHeight (record : AccountRecord) : Step σ UInt64 :=
  .ofAnswer (if record.blockCount.toNat + 1 < UInt64.size then .ok (record.blockCount + 1)
    else .error (.overflow .addition))

/-- The representative that an account has, which has to be there. -/
def currentRepresentative (record : AccountRecord) : Step σ Account :=
  .read fun store => do
    required (← representativeOfBlock? store record.representativeBlock)
      (.blockNotFound record.representativeBlock)

def addWeight (representative : Account) (amount : Amount) : Step σ Unit := do
  let weight ← Step.read fun store => stored (Store.weight store representative)
  Step.write (Store.putWeight representative (weight.wrappingAdd amount))

def subtractWeight (representative : Account) (amount : Amount) : Step σ Unit := do
  let weight ← Step.read fun store => stored (Store.weight store representative)
  Step.write (Store.putWeight representative (weight.wrappingSub amount))

def storeBlock (block : Block) (sideband : Sideband) : Step σ Unit := do
  Step.write (Store.putBlock ⟨block, sideband⟩)
  if !block.previous.isZero then
    Step.write (Store.putSuccessor block.previous block.hash)

/-- Keep the record of an account; a record without a head removes the account. -/
def updateAccount (account : Account) (record : AccountRecord) : Step σ Unit :=
  .write (if record.head.isZero then Store.removeAccount account
    else Store.putAccount account record)

/-- Make a block the head of a legacy chain, in the place of the block before it. -/
def moveFrontier (block : Block) (account : Account) : Step σ Unit := do
  Step.write (Store.removeFrontier block.previous)
  Step.write (Store.putFrontier block.hash account)

/-- A chain that goes on with a state block is no legacy chain any more. -/
def dropFrontier (record : AccountRecord) : Step σ Unit := do
  if !record.head.isZero then
    if (← Step.read fun store => stored (Store.frontier? store record.head)).isSome then
      Step.write (Store.removeFrontier record.head)

def legacySideband (account : Account) (height : UInt64) (balance : Amount) (now : Timestamp) :
    Sideband :=
  { account, height, balance, timestamp := now, details := .plain, sourceEpoch := .zero }

/-- The first block of a chain, given its last block. -/
def openBlockAfter (record : AccountRecord) (hash : BlockHash) : BlockHash :=
  if record.openBlock.isZero then hash else record.openBlock

def commitSend (block : Block) (now : Timestamp) (account : Account) (record : AccountRecord)
    (content : SendContent) : Step σ Unit := do
  let amount := record.balance.wrappingSub content.balance
  let representative ← currentRepresentative record
  subtractWeight representative amount
  let height ← nextHeight record
  storeBlock block (legacySideband account height content.balance now)
  updateAccount account { record with
    head := block.hash, balance := content.balance, modified := now, blockCount := height,
    epoch := .zero }
  Step.write (Store.putReceivable ⟨content.destination, block.hash⟩ ⟨account, amount, .zero⟩)
  moveFrontier block account

def commitReceive (block : Block) (now : Timestamp) (account : Account) (record : AccountRecord)
    (content : ReceiveContent) (receivable : Receivable) : Step σ Unit := do
  let balance := record.balance.wrappingAdd receivable.amount
  Step.write (Store.removeReceivable ⟨account, content.source⟩)
  let height ← nextHeight record
  storeBlock block (legacySideband account height balance now)
  updateAccount account { record with
    head := block.hash, balance := balance, modified := now, blockCount := height,
    epoch := .zero }
  let representative ← currentRepresentative record
  addWeight representative receivable.amount
  moveFrontier block account

def commitOpening (block : Block) (now : Timestamp) (content : OpeningContent)
    (receivable : Receivable) : Step σ Unit := do
  Step.write (Store.removeReceivable ⟨content.account, content.source⟩)
  storeBlock block (legacySideband content.account 1 receivable.amount now)
  updateAccount content.account
    { head := block.hash, representativeBlock := block.hash, openBlock := block.hash,
      balance := receivable.amount, modified := now, blockCount := 1, epoch := .zero }
  addWeight content.representative receivable.amount
  Step.write (Store.putFrontier block.hash content.account)

def commitChange (block : Block) (now : Timestamp) (account : Account) (record : AccountRecord)
    (content : ChangeContent) : Step σ Unit := do
  let height ← nextHeight record
  storeBlock block (legacySideband account height record.balance now)
  let representative ← currentRepresentative record
  subtractWeight representative record.balance
  addWeight content.representative record.balance
  updateAccount account { record with
    head := block.hash, representativeBlock := block.hash, modified := now,
    blockCount := height, epoch := .zero }
  moveFrontier block account

def commitTransfer (block : Block) (now : Timestamp) (existing : Option AccountRecord)
    (content : StateContent) (details : BlockDetails) (amount : Amount) (sourceEpoch : Epoch) :
    Step σ Unit := do
  let record := existing.getD .blank
  let height ← nextHeight record
  storeBlock block
    { account := content.account, height, balance := content.balance, timestamp := now, details,
      sourceEpoch }
  if existing.isSome then
    let representative ← currentRepresentative record
    subtractWeight representative record.balance
  addWeight content.representative content.balance
  if details.isSend then
    Step.write (Store.putReceivable ⟨content.link.asAccount, block.hash⟩
      ⟨content.account, amount, details.epoch⟩)
  else if !content.link.isZero then
    Step.write (Store.removeReceivable ⟨content.account, content.link.asBlockHash⟩)
  updateAccount content.account
    { head := block.hash, representativeBlock := block.hash,
      openBlock := openBlockAfter record block.hash, balance := content.balance, modified := now,
      blockCount := height, epoch := details.epoch }
  dropFrontier record

def commitUpgrade (block : Block) (now : Timestamp) (existing : Option AccountRecord)
    (content : StateContent) (epoch : Epoch) : Step σ Unit := do
  let record := existing.getD .blank
  let height ← nextHeight record
  storeBlock block
    { account := content.account, height, balance := record.balance, timestamp := now,
      details := ⟨epoch, false, false, true⟩, sourceEpoch := .zero }
  updateAccount content.account
    { head := block.hash, representativeBlock := block.hash,
      openBlock := openBlockAfter record block.hash, balance := record.balance, modified := now,
      blockCount := height, epoch }
  dropFrontier record

def Entry.commit (block : Block) (now : Timestamp) : Entry → Step σ Unit
  | .send account record content => commitSend block now account record content
  | .receive account record content receivable =>
    commitReceive block now account record content receivable
  | .opening content receivable => commitOpening block now content receivable
  | .change account record content => commitChange block now account record content
  | .transfer existing content details amount sourceEpoch =>
    commitTransfer block now existing content details amount sourceEpoch
  | .upgrade existing content epoch => commitUpgrade block now existing content epoch

/-- Offer a block to the ledger: judge it, and commit it if it is accepted. -/
def process (constants : LedgerConstants) (now : Timestamp) (hint : Verification)
    (block : Block) : Step σ Receipt := do
  match ← Step.read (judge constants hint block) with
  | .refused receipt => return receipt
  | .accepted entry =>
    entry.commit block now
    return entry.receipt

/-- Write the genesis block, its account and its weight, unless there are blocks already;
answer whether it was written. -/
def establish (constants : LedgerConstants) (now : Timestamp) : Step σ Bool := do
  if (← Step.read fun store => .ok (Store.counts store).blocks) > 0 then return false
  let genesis := constants.genesis
  let hash := genesis.hash
  let account := constants.genesisAccount
  let amount := constants.genesisAmount
  Step.write (Store.putBlock ⟨genesis, legacySideband account 1 amount now⟩)
  Step.write (Store.putAccount account
    { head := hash, representativeBlock := hash, openBlock := hash, balance := amount,
      modified := now, blockCount := 1, epoch := .zero })
  Step.write (Store.putFrontier hash account)
  Step.write (Store.putWeight (genesis.representative?.getD account) amount)
  return true

end Committing

end AccountChains.Ledger
