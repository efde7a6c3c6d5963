import AccountChains.Block.Hash
import AccountChains.Record.Codec

/-!
Contract: the records that the ledger keeps about accounts and blocks, and their
binary forms.

Owns: the record types, the keys of two parts with their order and their 64-byte
form, and one codec for each record. Does not own: the tables that hold them.
-/

namespace AccountChains

/-- What is kept about an account: its last block, the block that last named its
representative, its first block, and what these add up to. -/
structure AccountRecord where
  head : BlockHash
  representativeBlock : BlockHash
  openBlock : BlockHash
  balance : Amount
  modified : Timestamp
  blockCount : UInt64
  epoch : Epoch
deriving DecidableEq, Repr

/-- The record of an account without blocks. -/
def AccountRecord.blank : AccountRecord :=
  ⟨.zero, .zero, .zero, .zero, .zero, 0, .zero⟩

/-- What a block did: the epoch of its account after it, and its part in a transfer. -/
structure BlockDetails where
  epoch : Epoch
  isSend : Bool
  isReceive : Bool
  isEpoch : Bool
deriving DecidableEq, Repr

/-- The details of a block that plays no part and leaves the account in the first epoch. -/
def BlockDetails.plain : BlockDetails := ⟨.zero, false, false, false⟩

/-- What the ledger found out about a block when it took it in. The first block of a chain
has height one; `sourceEpoch` is the epoch of the send that the block received. -/
structure Sideband where
  account : Account
  height : UInt64
  balance : Amount
  timestamp : Timestamp
  details : BlockDetails
  sourceEpoch : Epoch
deriving DecidableEq, Repr

structure StoredBlock where
  block : Block
  sideband : Sideband
deriving DecidableEq, Repr

def StoredBlock.hash (stored : StoredBlock) : BlockHash := stored.block.hash

/-- A send that waits to be received: the destination and the hash of the send. -/
structure ReceivableKey where
  account : Account
  hash : BlockHash
deriving DecidableEq, Repr

/-- What waits to be received: who sent how much in which epoch. -/
structure Receivable where
  source : Account
  amount : Amount
  epoch : Epoch
deriving DecidableEq, Repr

/-- A block that waits for another one: the block it waits for and its own hash. -/
structure ParkedKey where
  dependency : BlockHash
  hash : BlockHash
deriving DecidableEq, Repr

/-- A block that waits, with the account that its submitter named (zero if none), the time of
its arrival, and what is known about its signature. -/
structure ParkedBlock where
  block : Block
  account : Account
  modified : Timestamp
  verified : Verification
deriving DecidableEq, Repr

namespace ReceivableKey

/-- By destination, so that what an account may receive is listed together. -/
instance : Ord ReceivableKey :=
  ⟨compareLex (compareOn ReceivableKey.account) (compareOn ReceivableKey.hash)⟩

instance : Std.TransOrd ReceivableKey :=
  inferInstanceAs
    (Std.TransCmp (compareLex (compareOn ReceivableKey.account) (compareOn ReceivableKey.hash)))

instance : Std.LawfulEqOrd ReceivableKey where
  compare_self := Std.ReflCmp.compare_self
  eq_of_compare {left right} equal := by
    obtain ⟨first, second⟩ := Ordering.then_eq_eq.mp equal
    cases left
    cases right
    simp only [compareOn] at first second
    rw [Std.LawfulEqOrd.eq_of_compare first, Std.LawfulEqOrd.eq_of_compare second]

/-- The two parts in a row, 64 bytes. -/
def toBytes (key : ReceivableKey) : Bytes := key.account.toBytes ++ key.hash.toBytes

/-- The key in the first 64 bytes, when there are that many. -/
def ofBytes? (bytes : Bytes) : Option ReceivableKey :=
  if 64 ≤ bytes.length then
    some ⟨.ofBytes (Bytes.field bytes 0 32), .ofBytes (Bytes.field bytes 32 32)⟩
  else none

end ReceivableKey

namespace ParkedKey

/-- By dependency, so that what waits for one block is listed together. -/
instance : Ord ParkedKey :=
  ⟨compareLex (compareOn ParkedKey.dependency) (compareOn ParkedKey.hash)⟩

instance : Std.TransOrd ParkedKey :=
  inferInstanceAs
    (Std.TransCmp (compareLex (compareOn ParkedKey.dependency) (compareOn ParkedKey.hash)))

instance : Std.LawfulEqOrd ParkedKey where
  compare_self := Std.ReflCmp.compare_self
  eq_of_compare {left right} equal := by
    obtain ⟨first, second⟩ := Ordering.then_eq_eq.mp equal
    cases left
    cases right
    simp only [compareOn] at first second
    rw [Std.LawfulEqOrd.eq_of_compare first, Std.LawfulEqOrd.eq_of_compare second]

/-- The two parts in a row, 64 bytes. -/
def toBytes (key : ParkedKey) : Bytes := key.dependency.toBytes ++ key.hash.toBytes

/-- The key in the first 64 bytes, when there are that many. -/
def ofBytes? (bytes : Bytes) : Option ParkedKey :=
  if 64 ≤ bytes.length then
    some ⟨.ofBytes (Bytes.field bytes 0 32), .ofBytes (Bytes.field bytes 32 32)⟩
  else none

end ParkedKey

namespace Codec

/-- The record of an account: its fields in order. -/
def accountRecord : Codec AccountRecord :=
  (identifier.pair (identifier.pair (identifier.pair (amount.pair
    (timestamp.pair (uint64.pair epoch)))))).rename
    (fun record => (record.head, record.representativeBlock, record.openBlock, record.balance,
      record.modified, record.blockCount, record.epoch))
    (fun (head, representativeBlock, openBlock, balance, modified, blockCount, epoch) =>
      { head, representativeBlock, openBlock, balance, modified, blockCount, epoch })
    fun _ => rfl

theorem canonical_accountRecord : accountRecord.Canonical :=
  (canonical_identifier.pair (canonical_identifier.pair (canonical_identifier.pair
    (canonical_amount.pair (canonical_timestamp.pair
      (canonical_uint64.pair canonical_epoch)))))).rename fun _ => rfl

/-- The details of a block: the epoch and three truth values. -/
def blockDetails : Codec BlockDetails :=
  (epoch.pair (bool.pair (bool.pair bool))).rename
    (fun details => (details.epoch, details.isSend, details.isReceive, details.isEpoch))
    (fun (epoch, isSend, isReceive, isEpoch) => { epoch, isSend, isReceive, isEpoch })
    fun _ => rfl

theorem canonical_blockDetails : blockDetails.Canonical :=
  (canonical_epoch.pair (canonical_bool.pair (canonical_bool.pair canonical_bool))).rename
    fun _ => rfl

/-- A sideband: its fields in order. -/
def sideband : Codec Sideband :=
  (identifier.pair (uint64.pair (amount.pair (timestamp.pair
    (blockDetails.pair epoch))))).rename
    (fun record => (record.account, record.height, record.balance, record.timestamp,
      record.details, record.sourceEpoch))
    (fun (account, height, balance, timestamp, details, sourceEpoch) =>
      { account, height, balance, timestamp, details, sourceEpoch })
    fun _ => rfl

theorem canonical_sideband : sideband.Canonical :=
  (canonical_identifier.pair (canonical_uint64.pair (canonical_amount.pair
    (canonical_timestamp.pair (canonical_blockDetails.pair canonical_epoch))))).rename
    fun _ => rfl

/-- A stored block: the typed block without a count, then its sideband. -/
def storedBlock : Codec StoredBlock :=
  (typedBlock.pair sideband).rename (fun stored => (stored.block, stored.sideband))
    (fun (block, sideband) => { block, sideband }) fun _ => rfl

/-- What waits to be received: its fields in order. -/
def receivable : Codec Receivable :=
  (identifier.pair (amount.pair epoch)).rename
    (fun record => (record.source, record.amount, record.epoch))
    (fun (source, amount, epoch) => { source, amount, epoch }) fun _ => rfl

theorem canonical_receivable : receivable.Canonical :=
  (canonical_identifier.pair (canonical_amount.pair canonical_epoch)).rename fun _ => rfl

/-- A block that waits: the counted block, then the other fields in order. -/
def parkedBlock : Codec ParkedBlock :=
  (block.pair (identifier.pair (timestamp.pair verification))).rename
    (fun record => (record.block, record.account, record.modified, record.verified))
    (fun (block, account, modified, verified) => { block, account, modified, verified })
    fun _ => rfl

end Codec

end AccountChains
