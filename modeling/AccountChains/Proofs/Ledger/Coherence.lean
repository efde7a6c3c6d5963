import AccountChains.Proofs.Amount
import AccountChains.Proofs.Table
import AccountChains.Ledger.Process
import AccountChains.Store.Memory

/-!
Contract: what holds between the tables of a ledger.

The block table says everything: every other table of a coherent ledger can be
computed from it. A stored block is justified by the two blocks it builds on,
its predecessor and, if it receives, the send it receives. The genesis block is
justified by nothing, and what it names as its source is no send.

Owns: the transfer of a stored block, the dependency between blocks,
`Justified`, and the invariant `Coherent`. Does not own: that operations keep it.
-/

namespace AccountChains

/-- The blocks of a ledger by their hashes. -/
abbrev BlockTable := Table BlockHash StoredBlock

/-- The part a stored block plays in a transfer. -/
inductive Transfer where
  | sends (destination : Account)
  | receives (source : BlockHash)
  | neither
deriving DecidableEq, Repr

/-- The transfer of a stored block: a legacy block says it by its kind, a state block by its
sideband. -/
def StoredBlock.transfer (stored : StoredBlock) : Transfer :=
  match stored.block.content with
  | .send content => .sends content.destination
  | .receive content => .receives content.source
  | .opening content => .receives content.source
  | .change _ => .neither
  | .state content =>
    if stored.sideband.details.isSend then .sends content.link.asAccount
    else if stored.sideband.details.isReceive then .receives content.link.asBlockHash
    else .neither

/-- A network whose genesis block opens the chain of the genesis account. -/
structure LedgerConstants.Sound (constants : LedgerConstants) : Prop where
  opens : ∃ content, constants.genesis.content = .opening content ∧
    content.account = constants.genesisAccount
  named : constants.genesis.hash ≠ .zero

section Sound

variable {constants : LedgerConstants} (sound : constants.Sound)

include sound

theorem LedgerConstants.Sound.previous_eq : constants.genesis.previous = .zero := by
  obtain ⟨content, opens, -⟩ := sound.opens
  simp [Block.previous, opens, Content.previous]

theorem LedgerConstants.Sound.names : constants.genesis.representative?.isSome := by
  obtain ⟨content, opens, -⟩ := sound.opens
  simp [Block.representative?, opens, Content.representative?]

theorem LedgerConstants.Sound.isLegacy : constants.genesis.kind.isLegacy := by
  obtain ⟨content, opens, -⟩ := sound.opens
  simp [Block.kind, opens, Content.kind, BlockKind.isLegacy]

end Sound

namespace BlockTable

variable (genesis : BlockHash) (blocks : BlockTable)

/-- The balance of its account before a block. -/
def balanceBefore (stored : StoredBlock) : Amount :=
  ((blocks.get? stored.block.previous).map fun before => before.sideband.balance).getD .zero

/-- The epoch of its account before a block. -/
def epochBefore (stored : StoredBlock) : Epoch :=
  ((blocks.get? stored.block.previous).map fun before => before.sideband.details.epoch).getD .zero

/-- What a send takes from the balance before it. -/
def sentAmount (send : StoredBlock) : Amount :=
  (balanceBefore blocks send).wrappingSub send.sideband.balance

/-- The representative that the record of an account leads to. -/
def representativeOf (record : AccountRecord) : Option Account :=
  (blocks.get? record.representativeBlock).bind fun found => found.block.representative?

/-- The last block at or before a given one that names a representative. -/
inductive NamedBy : BlockHash → BlockHash → Prop where
  | here {hash : BlockHash} {stored : StoredBlock}
      (found : blocks.get? hash = some stored)
      (names : stored.block.representative?.isSome) :
      NamedBy hash hash
  | earlier {hash naming : BlockHash} {stored : StoredBlock}
      (found : blocks.get? hash = some stored)
      (silent : stored.block.representative? = none)
      (rest : NamedBy stored.block.previous naming) :
      NamedBy hash naming

/-- A block builds on its predecessor and on the send it receives; the genesis block receives
nothing. -/
def DependsOn (hash dependency : BlockHash) : Prop :=
  ∃ stored, blocks.get? hash = some stored ∧
    (stored.block.previous = dependency ∨
      hash ≠ genesis ∧ stored.transfer = .receives dependency)

/-- No block but the genesis block receives the send. -/
def Unreceived (send : BlockHash) : Prop :=
  ∀ hash stored, blocks.get? hash = some stored → hash ≠ genesis →
    stored.transfer ≠ .receives send

/-- A send waits for its destination until it is received. -/
def Waits (key : ReceivableKey) (receivable : Receivable) : Prop :=
  ∃ send, blocks.get? key.hash = some send ∧ send.transfer = .sends key.account ∧
    Unreceived genesis blocks key.hash ∧
    receivable = ⟨send.sideband.account, sentAmount blocks send, send.sideband.details.epoch⟩

/-- A number for each hash that grows along every dependency. -/
def Ranked (rank : BlockHash → Nat) : Prop :=
  ∀ hash dependency, DependsOn genesis blocks hash dependency → rank dependency < rank hash

/-- A block comes next in the chain of the block before it. -/
structure Follows (before stored : StoredBlock) : Prop where
  account : before.sideband.account = stored.sideband.account
  height : stored.sideband.height.toNat = before.sideband.height.toNat + 1
  legacy : stored.block.kind.isLegacy → before.block.kind.isLegacy

/-- The balance and the source epoch of a block agree with its transfer. -/
def Settles (stored : StoredBlock) : Prop :=
  match stored.transfer with
  | .sends _ => stored.block.previous ≠ .zero ∧
      stored.sideband.balance.toNat ≤ (balanceBefore blocks stored).toNat ∧
      stored.sideband.sourceEpoch = .zero
  | .receives source => ∃ send, blocks.get? source = some send ∧
      send.transfer = .sends stored.sideband.account ∧
      stored.sideband.balance.toNat
        = (balanceBefore blocks stored).toNat + (sentAmount blocks send).toNat ∧
      stored.sideband.sourceEpoch = send.sideband.details.epoch
  | .neither => stored.sideband.balance = balanceBefore blocks stored ∧
      stored.sideband.sourceEpoch = .zero

/-- The sideband of a block repeats what its content says. -/
def Reflects (stored : StoredBlock) : Prop :=
  match stored.block.content with
  | .send content => content.balance = stored.sideband.balance
  | .opening content => content.account = stored.sideband.account
  | .state content => content.account = stored.sideband.account ∧
      content.balance = stored.sideband.balance ∧
      (stored.sideband.details.isSend = true
        ↔ content.balance.toNat < (balanceBefore blocks stored).toNat)
  | .receive _ | .change _ => True

/-- The sideband of a block is what the blocks it builds on make of it. -/
structure Justified (stored : StoredBlock) : Prop where
  first : stored.block.previous = .zero →
    stored.sideband.height.toNat = 1 ∧ stored.block.representative?.isSome
  follows : stored.block.previous ≠ .zero →
    ∃ before, blocks.get? stored.block.previous = some before ∧ Follows before stored
  settles : Settles blocks stored
  reflects : Reflects blocks stored
  legacy : stored.block.kind.isLegacy → stored.sideband.details = .plain
  /-- An epoch block goes to the next epoch, unless it is a first block. -/
  upgrades : stored.sideband.details.isEpoch → stored.transfer = .neither ∧
    (stored.block.previous ≠ .zero →
      (epochBefore blocks stored).isSequential stored.sideband.details.epoch)
  stays : stored.sideband.details.isEpoch = false → stored.sideband.details.epoch
    = (epochBefore blocks stored).later stored.sideband.sourceEpoch

section Founding

variable {blocks} {stored : StoredBlock} (justified : Justified blocks stored)

include justified

theorem Justified.previous_found (later : stored.block.previous ≠ .zero) :
    ∃ before, blocks.get? stored.block.previous = some before :=
  (justified.follows later).imp fun _ follows => follows.1

theorem Justified.source_found {source : BlockHash}
    (receives : stored.transfer = .receives source) :
    ∃ send, blocks.get? source = some send := by
  have settles := justified.settles
  simp only [Settles, receives] at settles
  exact settles.imp fun _ sends => sends.1

end Founding

section Naming

variable {blocks}

theorem NamedBy.unique {hash left right : BlockHash} (leftNamed : NamedBy blocks hash left)
    (rightNamed : NamedBy blocks hash right) : left = right := by
  induction leftNamed with
  | here found names =>
      cases rightNamed with
      | here => rfl
      | earlier otherFound silent =>
          obtain rfl := Option.some.inj (found.symm.trans otherFound)
          simp [silent] at names
  | earlier found silent rest inductionHypothesis =>
      cases rightNamed with
      | here otherFound names =>
          obtain rfl := Option.some.inj (found.symm.trans otherFound)
          simp [silent] at names
      | earlier otherFound _ otherRest =>
          obtain rfl := Option.some.inj (found.symm.trans otherFound)
          exact inductionHypothesis otherRest

/-- The block that names the representative is there and names one. -/
theorem NamedBy.names {hash naming : BlockHash} (named : NamedBy blocks hash naming) :
    ∃ stored representative, blocks.get? naming = some stored ∧
      stored.block.representative? = some representative := by
  induction named with
  | here found names =>
      obtain ⟨representative, holds⟩ := Option.isSome_iff_exists.mp names
      exact ⟨_, representative, found, holds⟩
  | earlier _ _ _ inductionHypothesis => exact inductionHypothesis

end Naming

end BlockTable

attribute [ext] Tables

namespace Tables

open BlockTable

/-- The record of an account describes its head. -/
structure Recorded (tables : Tables) (owner : Account) (record : AccountRecord)
    (head : StoredBlock) : Prop where
  found : tables.blocks.get? record.head = some head
  account : head.sideband.account = owner
  last : tables.successors.get? record.head = none
  balance : record.balance = head.sideband.balance
  modified : record.modified = head.sideband.timestamp
  blockCount : record.blockCount = head.sideband.height
  epoch : record.epoch = head.sideband.details.epoch
  opening : ∃ first, tables.blocks.get? record.openBlock = some first ∧
    first.sideband.account = owner ∧ first.block.previous = .zero
  representative : NamedBy tables.blocks record.head record.representativeBlock

/-- A stored block belongs to the chain that a record describes. -/
structure Belongs (tables : Tables) (hash : BlockHash) (stored : StoredBlock)
    (record : AccountRecord) : Prop where
  found : tables.accounts.get? stored.sideband.account = some record
  height : stored.sideband.height.toNat ≤ record.blockCount.toNat
  last : tables.successors.get? hash = none → record.head = hash
  first : stored.block.previous = .zero → record.openBlock = hash

/-- What an account adds to the weight of a representative. -/
def delegation (blocks : BlockTable) (representative _owner : Account) (record : AccountRecord) :
    Nat :=
  if representativeOf blocks record = some representative then record.balance.toNat else 0

/-- The balances of the accounts that a representative votes for. -/
def delegated (tables : Tables) (representative : Account) : Nat :=
  tables.accounts.total (delegation tables.blocks representative)

/-- No weight of zero is kept. -/
def Tidy (tables : Tables) : Prop :=
  ∀ representative, tables.weights.get? representative ≠ some .zero

/-- All that accounts hold and all that waits to be received. -/
def supply (tables : Tables) : Nat :=
  tables.accounts.total (fun _ record => record.balance.toNat)
    + tables.receivables.total fun _ receivable => receivable.amount.toNat

/-- The tables of a ledger agree with its blocks. -/
structure Coherent (constants : LedgerConstants) (tables : Tables) : Prop where
  keyed : ∀ {hash stored}, tables.blocks.get? hash = some stored →
    stored.hash = hash ∧ hash ≠ .zero
  genesis : ∃ now, tables.blocks.get? constants.genesis.hash = some ⟨constants.genesis,
    Ledger.legacySideband constants.genesisAccount 1 constants.genesisAmount now⟩
  justified : ∀ {hash stored}, tables.blocks.get? hash = some stored →
    hash ≠ constants.genesis.hash → Justified tables.blocks stored
  /-- No send is received twice. -/
  once : ∀ {hash other source stored found}, tables.blocks.get? hash = some stored →
    tables.blocks.get? other = some found → hash ≠ constants.genesis.hash →
    other ≠ constants.genesis.hash → stored.transfer = .receives source →
    found.transfer = .receives source → hash = other
  ranked : ∃ rank, Ranked constants.genesis.hash tables.blocks rank
  linked : ∀ previous hash, tables.successors.get? previous = some hash ↔
    previous ≠ .zero ∧ ∃ stored, tables.blocks.get? hash = some stored ∧
      stored.block.previous = previous
  recorded : ∀ {account record}, tables.accounts.get? account = some record →
    ∃ head, Recorded tables account record head
  belongs : ∀ {hash stored}, tables.blocks.get? hash = some stored →
    ∃ record, Belongs tables hash stored record
  fronted : ∀ hash account, tables.frontiers.get? hash = some account ↔
    ∃ stored, tables.blocks.get? hash = some stored ∧ stored.sideband.account = account ∧
      stored.block.kind.isLegacy ∧ tables.successors.get? hash = none
  waiting : ∀ key receivable, tables.receivables.get? key = some receivable ↔
    Waits constants.genesis.hash tables.blocks key receivable
  weighed : ∀ representative,
    tables.weight representative = .ofNat (tables.delegated representative)
  tidy : tables.Tidy
  conserved : tables.supply = constants.genesisAmount.toNat

/-- What waits outside the chains has no part in coherence. -/
theorem Coherent.reparked {constants : LedgerConstants} {tables : Tables}
    (coherent : tables.Coherent constants) (parked : Table ParkedKey ParkedBlock) :
    Coherent constants { tables with parked } where
  keyed := coherent.keyed
  genesis := coherent.genesis
  justified := coherent.justified
  once := coherent.once
  ranked := coherent.ranked
  linked := coherent.linked
  recorded found := by
    obtain ⟨head, recorded⟩ := coherent.recorded found
    exact ⟨head, recorded.found, recorded.account, recorded.last, recorded.balance,
      recorded.modified, recorded.blockCount, recorded.epoch, recorded.opening,
      recorded.representative⟩
  belongs found := by
    obtain ⟨record, belongs⟩ := coherent.belongs found
    exact ⟨record, belongs.found, belongs.height, belongs.last, belongs.first⟩
  fronted := coherent.fronted
  waiting := coherent.waiting
  weighed := coherent.weighed
  tidy := coherent.tidy
  conserved := coherent.conserved

end Tables

end AccountChains
