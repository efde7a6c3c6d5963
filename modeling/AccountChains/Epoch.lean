import AccountChains.Identifier
import AccountChains.Table

/-!
Contract: account epochs and the links that move an account to the next one.

A state block whose link is registered here and which leaves the balance as it
is moves its account to the link's epoch; the registered signer signs it, not
the owner of the account.
-/

namespace AccountChains

/-- The stage of the protocol that an account has reached. -/
inductive Epoch where
  | zero
  | one
  | two
deriving DecidableEq, Repr, Inhabited

namespace Epoch

def number : Epoch → Nat
  | .zero => 0
  | .one => 1
  | .two => 2

def ofNumber? : Nat → Option Epoch
  | 0 => some .zero
  | 1 => some .one
  | 2 => some .two
  | _ => none

def last : Epoch := .two

def next? (epoch : Epoch) : Option Epoch := ofNumber? (epoch.number + 1)

/-- Whether an account may go from one epoch to the other: only to the very next one. -/
def isSequential (current new : Epoch) : Bool := current.next? == some new

def later (first second : Epoch) : Epoch :=
  if first.number ≤ second.number then second else first

theorem later_zero (epoch : Epoch) : epoch.later .zero = epoch := by
  cases epoch <;> rfl

theorem ofNumber?_number (epoch : Epoch) : ofNumber? epoch.number = some epoch := by
  cases epoch <;> rfl

theorem number_of_ofNumber? {number : Nat} {epoch : Epoch}
    (named : ofNumber? number = some epoch) : epoch.number = number := by
  unfold ofNumber? at named
  split at named <;> simp_all [Epoch.number, eq_comm]

end Epoch

/-- What a registered link stands for. -/
structure EpochUpgrade where
  signer : Account
  epoch : Epoch
deriving DecidableEq, Repr

/-- The registered epoch links of a network. -/
structure EpochLinks where
  upgrades : Table Link EpochUpgrade

namespace EpochLinks

def none : EpochLinks := ⟨.empty⟩

/-- Register a link; a second registration of one link replaces the first. -/
def register (links : EpochLinks) (epoch : Epoch) (signer : Account) (link : Link) : EpochLinks :=
  ⟨links.upgrades.insert link ⟨signer, epoch⟩⟩

def isEpochLink (links : EpochLinks) (link : Link) : Bool := links.upgrades.contains link

/-- Who signs the blocks that carry a link. -/
def signer? (links : EpochLinks) (link : Link) : Option Account :=
  (links.upgrades.get? link).map EpochUpgrade.signer

/-- The epoch that a link leads to. -/
def epoch? (links : EpochLinks) (link : Link) : Option Epoch :=
  (links.upgrades.get? link).map EpochUpgrade.epoch

/-- A link that leads to an epoch, the least if there are several. -/
def link? (links : EpochLinks) (epoch : Epoch) : Option Link :=
  (links.upgrades.entries.find? fun entry => entry.2.epoch == epoch).map Prod.fst

end EpochLinks

end AccountChains
