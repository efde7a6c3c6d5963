/-!
Contract: what is already known about the signature of a block on its way to the
ledger.
-/

namespace AccountChains

/-- What is known about the signature of a block. -/
inductive Verification where
  | unknown
  /-- The signature is neither the account's nor the epoch signer's. -/
  | invalid
  /-- The key of the account accepts the signature. -/
  | valid
  /-- The signer of the epoch link accepts the signature. -/
  | validEpoch
deriving DecidableEq, Repr, Inhabited

namespace Verification

/-- The number by which a record names what is known. -/
def code : Verification → Nat
  | .unknown => 0
  | .invalid => 1
  | .valid => 2
  | .validEpoch => 3

/-- What a number in a record names. -/
def ofCode? : Nat → Option Verification
  | 0 => some .unknown
  | 1 => some .invalid
  | 2 => some .valid
  | 3 => some .validEpoch
  | _ => none

def all : List Verification := [.unknown, .invalid, .valid, .validEpoch]

def name : Verification → String
  | .unknown => "unknown"
  | .invalid => "invalid"
  | .valid => "valid"
  | .validEpoch => "valid_epoch"

def ofName? (name : String) : Option Verification := all.find? fun status => status.name == name

theorem ofCode?_code (status : Verification) : ofCode? status.code = some status := by
  cases status <;> rfl

theorem code_of_ofCode? {code : Nat} {status : Verification}
    (named : ofCode? code = some status) : status.code = code := by
  unfold ofCode? at named
  split at named <;> simp_all [Verification.code, eq_comm]

end Verification

end AccountChains
