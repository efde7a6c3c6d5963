import AccountChains.Hex
import AccountChains.Settings.Value

/-!
Contract: the values without parts in a settings text, given as one word.

A word is a whole number, a number with a fraction, a truth value, or a point in
time. A whole number is decimal, or has the base that its first two characters
say; a single underscore may stand between two digits. It has to fit in 64 bits
with sign.

Owns: `Scalar.read?`. Does not own: where a word ends.
-/

namespace AccountChains.Scalar

/-- The value of a digit in a base up to sixteen. -/
def digitOf? (base : Nat) (character : Char) : Option Nat :=
  (Hex.valueOf? character).filter (· < base)

/-- The values of one or more digits; a single underscore may stand between two of them. -/
def digits? (base : Nat) : List Char → Option (List Nat)
  | [] => none
  | [last] => (digitOf? base last).map fun value => [value]
  | first :: '_' :: rest => do return (← digitOf? base first) :: (← digits? base rest)
  | first :: rest => do return (← digitOf? base first) :: (← digits? base rest)

def ofDigits (base : Nat) (digits : List Nat) : Nat :=
  digits.foldl (fun number digit => number * base + digit) 0

/-- The digits of a decimal number that has no zero in front of other digits. -/
def plainDigits? (word : List Char) : Option (List Nat) := do
  let digits ← digits? 10 word
  if digits.length > 1 && digits.head? == some 0 then none else return digits

/-- Cut a sign off a word, and say whether it was a minus sign. -/
def withSign (word : List Char) : Bool × List Char :=
  match word with
  | '+' :: rest => (false, rest)
  | '-' :: rest => (true, rest)
  | rest => (false, rest)

def bounded? (number : Int) : Option Int :=
  if ConfigValue.fits number then some number else none

def integer? (word : List Char) : Option Int :=
  match word with
  | '0' :: 'x' :: rest => do bounded? (ofDigits 16 (← digits? 16 rest))
  | '0' :: 'o' :: rest => do bounded? (ofDigits 8 (← digits? 8 rest))
  | '0' :: 'b' :: rest => do bounded? (ofDigits 2 (← digits? 2 rest))
  | _ => do
    let (isNegative, rest) := withSign word
    let number : Int := ofDigits 10 (← plainDigits? rest)
    bounded? (if isNegative then -number else number)

/-- Cut a word before the first character that the test accepts. -/
def cutAt (accepts : Char → Bool) (word : List Char) : List Char × List Char :=
  word.span fun character => !accepts character

/-- The least number that is too great for a binary fraction of 64 bits. -/
def fractionBound : Nat := 1 <<< 1024 - 1 <<< 970

/-- Whether a decimal number, given by its digits and the power of ten they are multiplied by,
is too great for a binary fraction of 64 bits. -/
def isTooGreat (digits : List Nat) (exponent : Int) : Bool :=
  let number := ofDigits 10 digits
  let places : Int := (Nat.toDigits 10 number).length + exponent
  if number = 0 ∨ places < 300 then false
  else if 400 < places then true
  else if 0 ≤ exponent then fractionBound ≤ number * Nat.pow 10 exponent.toNat
  else fractionBound * Nat.pow 10 (-exponent).toNat ≤ number

/-- The exponent of a number with a fraction. -/
def exponent? (word : List Char) : Option Int := do
  let (isNegative, rest) := withSign word
  let number : Int := ofDigits 10 (← digits? 10 rest)
  return if isNegative then -number else number

/-- Whether a word is a number with a fraction or an exponent. Only a positive one may be too
great. -/
def isFraction (word : List Char) : Bool :=
  let (isNegative, rest) := withSign word
  if rest == ['i', 'n', 'f'] || rest == ['n', 'a', 'n'] then true
  else
    let (mantissa, power) := cutAt (fun character => character == 'e' || character == 'E') rest
    let (whole, fraction) := cutAt (· == '.') mantissa
    let parts : Option (List Nat × Int) := do
      let whole ← plainDigits? whole
      let fraction ← match fraction with
        | [] => if power.isEmpty then none else pure []
        | _ :: fraction => digits? 10 fraction
      let power ← match power with
        | [] => pure 0
        | _ :: power => exponent? power
      return (whole ++ fraction, power - fraction.length)
    match parts with
    | none => false
    | some (digits, exponent) => isNegative || !isTooGreat digits exponent

/-! ## Points in time -/

/-- The number that exactly `count` decimal digits make. -/
def fixedNumber? (count : Nat) (word : List Char) : Option Nat :=
  if word.length = count ∧ word.all Char.isDigit then
    some (ofDigits 10 (word.filterMap (digitOf? 10)))
  else none

def daysOfMonth (year month : Nat) : Nat :=
  if month = 2 then
    if year % 4 = 0 ∧ (year % 100 ≠ 0 ∨ year % 400 = 0) then 29 else 28
  else if month = 4 ∨ month = 6 ∨ month = 9 ∨ month = 11 then 30
  else 31

/-- Whether a word of ten characters is a date: year, month and day. -/
def isDate (word : List Char) : Bool :=
  match fixedNumber? 4 (word.take 4), fixedNumber? 2 ((word.drop 5).take 2),
      fixedNumber? 2 (word.drop 8) with
  | some year, some month, some day =>
    word[4]? == some '-' && word[7]? == some '-' && 1 ≤ month && month ≤ 12 && 1 ≤ day
      && day ≤ daysOfMonth year month
  | _, _, _ => false

/-- Whether five characters are an hour and a minute. -/
def isHourAndMinute (word : List Char) : Bool :=
  match fixedNumber? 2 (word.take 2), fixedNumber? 2 (word.drop 3) with
  | some hour, some minute => word[2]? == some ':' && hour ≤ 23 && minute ≤ 59
  | _, _ => false

/-- Whether a word is the difference to universal time, or nothing. -/
def isOffset (word : List Char) : Bool :=
  match word with
  | [] | ['Z'] | ['z'] => true
  | sign :: rest => (sign == '+' || sign == '-') && isHourAndMinute rest

/-- What follows the seconds: a fraction of any length, or nothing. -/
def afterFraction? (word : List Char) : Option (List Char) :=
  match word with
  | '.' :: rest =>
    let (fraction, after) := rest.span Char.isDigit
    if fraction.isEmpty then none else some after
  | rest => some rest

/-- Whether a word is a time of day, with the difference to universal time if that is allowed. -/
def isTime (mayHaveOffset : Bool) (word : List Char) : Bool :=
  let seconds := match fixedNumber? 2 ((word.drop 6).take 2) with
    | some seconds => word[5]? == some ':' && seconds ≤ 60
    | none => false
  isHourAndMinute (word.take 5) && seconds &&
    match afterFraction? (word.drop 8) with
    | some rest => if mayHaveOffset then isOffset rest else rest.isEmpty
    | none => false

/-- Whether a word is a point in time: a date, a time of day, or a date and a time of day with a
letter between them. -/
def isPointInTime (word : List Char) : Bool :=
  if isDate (word.take 10) then
    match word.drop 10 with
    | [] => true
    | letter :: time => (letter == 'T' || letter == 't' || letter == ' ') && isTime true time
  else isTime false word

def read? (word : String) : Option ConfigValue :=
  let characters := word.toList
  if word == "true" then some (.truth true)
  else if word == "false" then some (.truth false)
  else if isPointInTime characters then some .pointInTime
  else if let some number := integer? characters then some (.integer number)
  else if isFraction characters then some .fraction
  else none

end AccountChains.Scalar
