/-!
Contract: the decimal text of a binary64 number.

A number is written with as few significant digits as tell it from every other
number of the format. Of two texts with that many digits the nearer one is taken,
and the greater one if both are equally near. There is no exponent: zeros fill the
places up to the point, and a whole number has no point.

Everything is decided in natural numbers: with `significand * 2 ^ exponent` measured
in steps of a power of ten, the multiples next to it are the quotient of two natural
numbers and the number after that, and whether one of them reads back is a comparison
of its distance with half the gap to the neighbouring number.

Owns: `Binary64`, `Decimal`, and `Decimal.textOf`.
-/

namespace AccountChains

/-- A finite number of the format without its sign: `significand * 2 ^ exponent`. -/
structure Binary64 where
  significand : Nat
  exponent : Int
  /-- Whether the number below is only half as far away as the number above. -/
  isNarrowBelow : Bool
deriving DecidableEq, Repr

/-- A number `digits * 10 ^ place`. -/
structure Decimal where
  digits : Nat
  place : Int
deriving DecidableEq, Repr

namespace Binary64

/-- The number with the given bits, which are those of a finite number. -/
def ofBits (bits : UInt64) : Binary64 :=
  let field := ((bits >>> 52) &&& 0x7ff).toNat
  let fraction := (bits &&& 0xfffffffffffff).toNat
  if field = 0 then ⟨fraction, -1074, false⟩
  else ⟨0x10000000000000 + fraction, field - 1075, fraction == 0 && 1 < field⟩

/-- Whether what is `distance` away from a number still reads back as that number, if the next
number in that direction is `gap` away. Half-way points go to the even significand. -/
def reachesHalfway (number : Binary64) (gap distance : Nat) : Bool :=
  if number.significand % 2 = 0 then 2 * distance ≤ gap else 2 * distance < gap

/-- A multiple of `10 ^ place` that reads back as the number: one of the two that are next to
it, if there is one. -/
def multiple? (number : Binary64) (place : Int) : Option Nat :=
  let unit := 2 * (Nat.pow 2 number.exponent.toNat * Nat.pow 10 (-place).toNat)
  let step := 2 * (Nat.pow 2 (-number.exponent).toNat * Nat.pow 10 place.toNat)
  let value := number.significand * unit
  let below := value % step
  let above := step - below
  let lower := number.reachesHalfway (if number.isNarrowBelow then unit / 2 else unit) below
  let upper := number.reachesHalfway unit above
  if lower && (!upper || below < above) then some (value / step)
  else if upper then some (value / step + 1)
  else none

/-- A place above the leading digit of a number, by one or two places. The logarithm of two
is taken as 30103 / 100000, which is near enough for every exponent of the format. -/
def startPlace (number : Binary64) : Int :=
  (Nat.log2 number.significand + number.exponent) * 30103 / 100000 + 2

/-- The number itself: negative powers of two end in decimal notation. -/
def inFull (number : Binary64) : Decimal where
  digits := number.significand * Nat.pow 2 number.exponent.toNat
    * Nat.pow 5 (-number.exponent).toNat
  place := min number.exponent 0

/-- The shortest decimal that reads back as the number: from the leading digit downwards, the
first place that has one. Seventeen digits always suffice. -/
def shortest (number : Binary64) : Decimal :=
  if number.significand = 0 then ⟨0, 0⟩
  else
    let found := (List.range 20).findSome? fun (depth : Nat) =>
      let place := number.startPlace - depth
      (number.multiple? place).map fun digits => Decimal.mk digits place
    found.getD number.inFull

end Binary64

namespace Decimal

/-- The digits in their places. -/
def render (decimal : Decimal) : String :=
  let digits := (toString decimal.digits).toList
  if 0 ≤ decimal.place then
    String.ofList (digits ++ List.replicate decimal.place.toNat '0')
  else
    let behind := (-decimal.place).toNat
    let padded := List.replicate (behind + 1 - digits.length) '0' ++ digits
    let (front, back) := padded.splitAt (padded.length - behind)
    String.ofList (front ++ '.' :: back)

def textOf (value : Float) : String :=
  if value.isNaN then "NaN"
  else
    let bits := value.toBits
    let size := if value.isInf then "inf" else (Binary64.ofBits bits).shortest.render
    if bits >>> 63 = 0 then size else "-" ++ size

end Decimal

end AccountChains
