/-!
Contract: points in time, whole seconds since the start of 1970.

No function here reads a clock: whoever needs the present takes it as an
argument.
-/

namespace AccountChains

/-- Seconds since the start of 1970. -/
structure Timestamp where
  seconds : UInt64
deriving DecidableEq, Repr, Inhabited

namespace Timestamp

instance : Ord Timestamp := ⟨compareOn Timestamp.seconds⟩

/-- The start of 1970; it stands for "not known". -/
def zero : Timestamp := ⟨0⟩

def isZero (time : Timestamp) : Bool := time.seconds == 0

/-- The difference of two counts of seconds, or zero when it would be below zero. -/
def secondsBetween (earlier later : UInt64) : UInt64 :=
  if earlier ≤ later then later - earlier else 0

/-- Seconds from this time to the present, zero for a time to come. -/
def elapsed (time now : Timestamp) : UInt64 := secondsBetween time.seconds now.seconds

/-- Whether this time is less than `window` seconds ago. -/
def isWithin (time : Timestamp) (window : UInt64) (now : Timestamp) : Bool :=
  secondsBetween window now.seconds < time.seconds

/-- The count of seconds with its unit. -/
def render (time : Timestamp) : String := toString time.seconds.toNat ++ "s"

end Timestamp

end AccountChains
