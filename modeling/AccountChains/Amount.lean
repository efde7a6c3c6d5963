import AccountChains.Bytes

/-!
Contract: amounts of currency, 128-bit counts of raw units.

Owns: checked, saturating and wrapping arithmetic, the order, and the big-endian
byte form used in block hashes and on the wire. Arithmetic that must not wrap
answers an `Overflow` instead of a value.
-/

namespace AccountChains

/-- A checked operation whose result does not fit its type. -/
inductive Overflow where
  | addition
  | subtraction
deriving DecidableEq, Repr

def Overflow.message : Overflow → String
  | .addition => "attempt to add with overflow"
  | .subtraction => "attempt to subtract with overflow"

/-- A count of raw units in 128 bits. -/
structure Amount where
  raw : BitVec 128
deriving DecidableEq, Repr

namespace Amount

/-- How many amounts there are. -/
abbrev size : Nat := 340282366920938463463374607431768211456

instance : Inhabited Amount := ⟨⟨0⟩⟩

instance : LE Amount := ⟨fun left right => left.raw ≤ right.raw⟩

instance : LT Amount := ⟨fun left right => left.raw < right.raw⟩

instance (left right : Amount) : Decidable (left ≤ right) :=
  inferInstanceAs (Decidable (left.raw ≤ right.raw))

instance (left right : Amount) : Decidable (left < right) :=
  inferInstanceAs (Decidable (left.raw < right.raw))

instance : Ord Amount := ⟨compareOn Amount.raw⟩

def zero : Amount := ⟨0⟩

def greatest : Amount := ⟨BitVec.allOnes 128⟩

/-- The amount of a number of units, modulo the count of amounts. -/
def ofNat (number : Nat) : Amount := ⟨BitVec.ofNat 128 number⟩

def toNat (amount : Amount) : Nat := amount.raw.toNat

def isZero (amount : Amount) : Bool := amount.raw == 0

@[simp] theorem isZero_iff (amount : Amount) : amount.isZero = true ↔ amount = zero := by
  cases amount
  simp [isZero, zero]

theorem toNat_lt (amount : Amount) : amount.toNat < size := amount.raw.isLt

@[ext] theorem ext {left right : Amount} (same : left.toNat = right.toNat) : left = right := by
  cases left
  cases right
  exact congrArg Amount.mk (BitVec.eq_of_toNat_eq same)

/-- The sum modulo the count of amounts. -/
def wrappingAdd (left right : Amount) : Amount := ⟨left.raw + right.raw⟩

/-- The difference modulo the count of amounts. -/
def wrappingSub (left right : Amount) : Amount := ⟨left.raw - right.raw⟩

/-- The sum, unless it exceeds the greatest amount. -/
def add? (left right : Amount) : Option Amount :=
  if left.toNat + right.toNat < size then some (left.wrappingAdd right) else none

/-- The difference, unless it is below zero. -/
def sub? (left right : Amount) : Option Amount :=
  if right.toNat ≤ left.toNat then some (left.wrappingSub right) else none

/-- The difference, or zero when it would be below zero. -/
def saturatingSub (left right : Amount) : Amount := (left.sub? right).getD zero

/-- The sum, or an overflow. -/
def add (left right : Amount) : Except Overflow Amount :=
  match left.add? right with
  | some sum => .ok sum
  | none => .error .addition

/-- The difference, or an overflow. -/
def sub (left right : Amount) : Except Overflow Amount :=
  match left.sub? right with
  | some difference => .ok difference
  | none => .error .subtraction

theorem toNat_wrappingAdd (left right : Amount) :
    (left.wrappingAdd right).toNat = (left.toNat + right.toNat) % size :=
  BitVec.toNat_add left.raw right.raw

/-- A difference that is not below zero does not wrap. -/
theorem toNat_wrappingSub {left right : Amount} (covered : right.toNat ≤ left.toNat) :
    (left.wrappingSub right).toNat = left.toNat - right.toNat :=
  BitVec.toNat_sub_of_le (BitVec.le_def.mpr covered)

def toBytes (amount : Amount) : Bytes := Bytes.ofWord 16 amount.raw

def ofBytes (bytes : Bytes) : Amount := ⟨Bytes.toWord 16 bytes⟩

@[simp] theorem length_toBytes (amount : Amount) : amount.toBytes.length = 16 :=
  Bytes.length_ofWord 16 amount.raw

@[simp] theorem ofNat_toNat (amount : Amount) : ofNat amount.toNat = amount := by
  cases amount
  simp [ofNat, toNat]

@[simp] theorem ofBytes_toBytes (amount : Amount) : ofBytes amount.toBytes = amount :=
  congrArg Amount.mk (Bytes.toWord_ofWord 16 amount.raw)

theorem toBytes_ofBytes {bytes : Bytes} (exact : bytes.length = 16) :
    (ofBytes bytes).toBytes = bytes :=
  Bytes.ofWord_toWord exact

/-- The amount with its unit. -/
def render (amount : Amount) : String := toString amount.toNat ++ " raw"

end Amount

end AccountChains
