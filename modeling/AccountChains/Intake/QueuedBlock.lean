import AccountChains.Authorship
import AccountChains.Epoch
import AccountChains.Intake.Interner
import AccountChains.Record.Basic

/-!
Contract: a block on its way to the ledger, and checking a batch of them.

A block is checked against the key that should have signed it: the signer of its
link if the link is an epoch link, else the account that its submitter vouched
for, else its own account. A failed check against the signer of an epoch link
leaves the matter open, because the block may be a send to the account whose key
has the bytes of that link.

Owns: `QueuedBlock` and `verifyAll`. Does not own: the queues.
-/

namespace AccountChains

structure QueuedBlock where
  handle : Handle
  /-- The account that the submitter vouches for, zero if it is not known. -/
  account : Account
  /-- When the block arrived for the first time. -/
  modified : Timestamp
  verified : Verification
deriving DecidableEq, Repr

namespace QueuedBlock

/-- A block of which only the time of its arrival is known. -/
def plain (handle : Handle) (modified : Timestamp) : QueuedBlock :=
  ⟨handle, .zero, modified, .unknown⟩

/-- A parked block, taken up again. -/
def ofParked (number : Nat) (parked : ParkedBlock) : QueuedBlock :=
  ⟨⟨number, parked.block⟩, parked.account, parked.modified, parked.verified⟩

def block (item : QueuedBlock) : Block := item.handle.block

def hash (item : QueuedBlock) : BlockHash := item.block.hash

/-- What is parked when the block has to wait, with what is now known about its signature. -/
def toParked (item : QueuedBlock) (verified : Verification) : ParkedBlock :=
  ⟨item.block, item.account, item.modified, verified⟩

/-- Whether the signature is checked before the block goes to the ledger: it is not known, and
the block names its account or its submitter does. -/
def needsVerification (item : QueuedBlock) : Bool :=
  item.verified == .unknown &&
    (item.block.kind == .state || item.block.kind == .opening || !item.account.isZero)

/-- The signer of the block's link, if the link is an epoch link. -/
def epochSigner? (links : EpochLinks) (item : QueuedBlock) : Option Account :=
  if item.block.link.isZero then none else links.signer? item.block.link

def expectedSigner (links : EpochLinks) (item : QueuedBlock) : Account :=
  match item.epochSigner? links with
  | some signer => signer
  | none => if item.account.isZero then item.block.account else item.account

/-- What the answer of a check tells about the signature. -/
def conclusion (links : EpochLinks) (item : QueuedBlock) (isAuthentic : Bool) : Verification :=
  match isAuthentic, (item.epochSigner? links).isSome with
  | true, true => .validEpoch
  | true, false => .valid
  | false, true => .unknown
  | false, false => .invalid

/-- What is known about the signature of each block after the batch has been checked. -/
def verifyAll (links : EpochLinks) (threads : Nat) (batch : List QueuedBlock) :
    List Verification :=
  let checks := batch.map fun item => item.block.signedMessage (item.expectedSigner links)
  List.zipWith (fun item isAuthentic => item.conclusion links isAuthentic) batch
    (SignedMessage.areAuthentic threads checks)

end QueuedBlock

end AccountChains
