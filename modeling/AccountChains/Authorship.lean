import AccountChains.Block.Hash
import AccountChains.Ed25519

/-!
Contract: who signed what.

An account is a public key, so a signature is checked against an account. A
block's signature is a signature of its hash.

Owns: secret keys, signing, checking one message or a batch, and building signed
blocks. Does not own: which account should have signed a block.
-/

namespace AccountChains

structure SecretKey where
  seed : BitVec 256
deriving DecidableEq, Repr

/-- A message with the account that should have signed it and the signature offered. -/
structure SignedMessage where
  message : Bytes
  signer : Account
  signature : Signature
deriving DecidableEq, Repr

def SignedMessage.isAuthentic (signed : SignedMessage) : Bool :=
  Ed25519.verify signed.signer.toBytes signed.message signed.signature.toBytes

namespace SignedMessage

/-- The fewest messages that one task of a batch takes. -/
def taskSize : Nat := 64

/-- Cut a batch into tasks; each takes at least `taskSize` messages, if there are that many. -/
def tasks (threads : Nat) (batch : List SignedMessage) : List (List SignedMessage) :=
  if threads = 0 ∨ batch.length ≤ taskSize then [batch]
  else
    let size := max taskSize ((batch.length + threads - 1) / threads)
    let rec divide : Nat → List SignedMessage → List (List SignedMessage)
      | 0, rest => [rest]
      | count + 1, rest =>
        if rest.length ≤ size then [rest]
        else rest.take size :: divide count (rest.drop size)
    divide batch.length batch

/-- One answer for each message, in order, whatever number of threads shares the tasks. -/
def areAuthentic (threads : Nat) (batch : List SignedMessage) : List Bool :=
  (tasks threads batch).flatMap fun task => task.map isAuthentic

end SignedMessage

namespace SecretKey

def toBytes (key : SecretKey) : Bytes := Bytes.ofWord 32 key.seed

def account (key : SecretKey) : Account := .ofBytes (Ed25519.publicKey key.toBytes)

def sign (key : SecretKey) (message : Bytes) : Signature :=
  .ofBytes (Ed25519.sign key.toBytes message)

/-- The block that says `content`, signed with the key. -/
def block (key : SecretKey) (content : Content) (work : UInt64) : Block :=
  { content, signature := key.sign content.hash.toBytes, work }

/-- The opening block of the key's own account. -/
def openingBlock (key : SecretKey) (source : BlockHash) (representative : Account)
    (work : UInt64) : Block :=
  key.block (.opening { source, representative, account := key.account }) work

end SecretKey

/-- The claim that an account signed a block. -/
def Block.signedMessage (block : Block) (signer : Account) : SignedMessage :=
  { message := block.hash.toBytes, signer, signature := block.signature }

/-- Whether an account's key accepts the signature of a block. -/
def Block.isSignedBy (block : Block) (signer : Account) : Bool :=
  (block.signedMessage signer).isAuthentic

end AccountChains
