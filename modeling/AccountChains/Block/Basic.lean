import AccountChains.Amount
import AccountChains.Block.Kind
import AccountChains.Identifier
import AccountChains.Signature

/-!
Contract: blocks, the entries of account chains.

Each account has a chain of blocks of its own. A block says something
(`Content`), is signed, and carries the nonce of a proof of work. Send, receive,
opening and change blocks each do one thing; a state block states the whole new
state of its account, and what it does follows from the state before it.

Owns: the contents, what can be read off a block alone, and which kinds may
follow each other. Does not own: hashing, encoding, or any rule that needs the
ledger.
-/

namespace AccountChains

/-- Send: leave `balance` on the account; the difference goes to `destination`. -/
structure SendContent where
  previous : BlockHash
  destination : Account
  balance : Amount
deriving DecidableEq, Repr

/-- Receive: take the amount of the send `source`. -/
structure ReceiveContent where
  previous : BlockHash
  source : BlockHash
deriving DecidableEq, Repr

/-- Opening: start the chain of `account` by taking the amount of the send `source`. -/
structure OpeningContent where
  source : BlockHash
  representative : Account
  account : Account
deriving DecidableEq, Repr

/-- Change: name another representative. -/
structure ChangeContent where
  previous : BlockHash
  representative : Account
deriving DecidableEq, Repr

/-- State: the whole state of `account` after the block. `link` is a destination, a source
or an epoch link, as the change of balance decides. -/
structure StateContent where
  account : Account
  previous : BlockHash
  representative : Account
  balance : Amount
  link : Link
deriving DecidableEq, Repr

/-- What a block says. -/
inductive Content where
  | send (content : SendContent)
  | receive (content : ReceiveContent)
  | opening (content : OpeningContent)
  | change (content : ChangeContent)
  | state (content : StateContent)
deriving DecidableEq, Repr

namespace Content

/-- The kind of block that says this. -/
def kind : Content → BlockKind
  | .send _ => .send
  | .receive _ => .receive
  | .opening _ => .opening
  | .change _ => .change
  | .state _ => .state

/-- The block before this one in its chain, zero if there is none. -/
def previous : Content → BlockHash
  | .send content => content.previous
  | .receive content => content.previous
  | .opening _ => .zero
  | .change content => content.previous
  | .state content => content.previous

/-- The account, where it is named, else zero. -/
def account : Content → Account
  | .opening content => content.account
  | .state content => content.account
  | .send _ | .receive _ | .change _ => .zero

/-- The slot in the chain: the account for a first block, the predecessor for any other. -/
def root (content : Content) : Root :=
  match content with
  | .opening entry => entry.account.asRoot
  | .state entry =>
    if entry.previous.isZero then entry.account.asRoot else entry.previous.asRoot
  | .send _ | .receive _ | .change _ => content.previous.asRoot

/-- The send named by a receive or opening block, else zero. -/
def source : Content → BlockHash
  | .receive content => content.source
  | .opening content => content.source
  | .send _ | .change _ | .state _ => .zero

/-- The link of a state block, else zero. -/
def link : Content → Link
  | .state content => content.link
  | .send _ | .receive _ | .opening _ | .change _ => .zero

/-- The representative, where one is named. -/
def representative? : Content → Option Account
  | .opening content => some content.representative
  | .change content => some content.representative
  | .state content => some content.representative
  | .send _ | .receive _ => none

/-- The balance after the block, where it is named. -/
def balance? : Content → Option Amount
  | .send content => some content.balance
  | .state content => some content.balance
  | .receive _ | .opening _ | .change _ => none

/-- The destination of a send block. -/
def destination? : Content → Option Account
  | .send content => some content.destination
  | .receive _ | .opening _ | .change _ | .state _ => none

/-- Whether a block that says this may follow a block of the given kind: legacy blocks
follow legacy blocks, an opening follows nothing, a state block follows anything. -/
def mayFollow : Content → BlockKind → Bool
  | .send _, before | .receive _, before | .change _, before => before.isLegacy
  | .opening _, _ => false
  | .state _, _ => true

end Content

/-- A block: what it says, the signature of its hash, and the nonce of its work. -/
structure Block where
  content : Content
  signature : Signature
  work : UInt64
deriving DecidableEq, Repr

namespace Block

def kind (block : Block) : BlockKind := block.content.kind

def previous (block : Block) : BlockHash := block.content.previous

def account (block : Block) : Account := block.content.account

def root (block : Block) : Root := block.content.root

/-- The slot and the predecessor: what two competing blocks have in common. -/
def qualifiedRoot (block : Block) : QualifiedRoot := ⟨block.root, block.previous⟩

def source (block : Block) : BlockHash := block.content.source

def link (block : Block) : Link := block.content.link

def representative? (block : Block) : Option Account := block.content.representative?

def balance? (block : Block) : Option Amount := block.content.balance?

def destination? (block : Block) : Option Account := block.content.destination?

def mayFollow (block : Block) (before : BlockKind) : Bool := block.content.mayFollow before

section Form

variable {block : Block} {content : Content} (form : block.content = content)

include form

theorem kind_of_form : block.kind = content.kind := congrArg Content.kind form

theorem previous_of_form : block.previous = content.previous := congrArg Content.previous form

theorem link_of_form : block.link = content.link := congrArg Content.link form

end Form

end Block

end AccountChains
