import AccountChains.Amount
import AccountChains.Identifier
import AccountChains.Verification

/-!
Contract: what the ledger says about a block that is offered to it.

A verdict is not an error: a block that is refused leaves the ledger as it was.
The receipt adds what the ledger found out on the way.
-/

namespace AccountChains

/-- What the ledger says about a block. -/
inductive Verdict where
  /-- The block is now part of the ledger. -/
  | progress
  /-- The key that should have signed the block does not accept its signature. -/
  | badSignature
  /-- The block was part of the ledger before. -/
  | old
  /-- A send would leave more than there was. -/
  | negativeSpend
  /-- Another block has the place of this one. -/
  | fork
  /-- Nothing waits under the source, or a block of this kind may not receive it. -/
  | unreceivable
  /-- The block before this one is not there yet. -/
  | gapPrevious
  /-- The source is not there yet. -/
  | gapSource
  /-- The account is the one that nobody may open. -/
  | openedBurnAccount
  /-- The change of balance is not what the block may do. -/
  | balanceMismatch
  /-- An epoch block names another representative. -/
  | representativeMismatch
  /-- The block may not follow the one before it, or the epoch is not the next one. -/
  | blockPosition
deriving DecidableEq, Repr

namespace Verdict

def all : List Verdict :=
  [.progress, .badSignature, .old, .negativeSpend, .fork, .unreceivable, .gapPrevious, .gapSource,
    .openedBurnAccount, .balanceMismatch, .representativeMismatch, .blockPosition]

def name : Verdict → String
  | .progress => "progress"
  | .badSignature => "bad_signature"
  | .old => "old"
  | .negativeSpend => "negative_spend"
  | .fork => "fork"
  | .unreceivable => "unreceivable"
  | .gapPrevious => "gap_previous"
  | .gapSource => "gap_source"
  | .openedBurnAccount => "opened_burn_account"
  | .balanceMismatch => "balance_mismatch"
  | .representativeMismatch => "representative_mismatch"
  | .blockPosition => "block_position"

def ofName? (name : String) : Option Verdict := all.find? fun verdict => verdict.name == name

/-- Whether the verdict may be another one when the block is offered again later: it is about
what is or is not there yet. -/
def isRetryable : Verdict → Bool
  | .old | .gapPrevious | .gapSource => true
  | _ => false

end Verdict

/-- A verdict with what was found out: the owner of the block, the amount it moves and where
to, what is now known about its signature, and the balance before it. What was not found out
is zero. -/
structure Receipt where
  verdict : Verdict
  account : Account
  amount : Amount
  destination : Account
  verified : Verification
  previousBalance : Amount
deriving DecidableEq, Repr

end AccountChains
