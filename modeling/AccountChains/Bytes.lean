/-!
Contract: byte strings and the fixed-width numerals written in them.

Owns:
- little-endian and big-endian numerals of a given width, each with the law
  that writing then reading gives the number back modulo the numbers that
  the width can hold, and that reading then writing gives the bytes back;
- the field of a known width at a known place.

Does not own: text forms of byte strings, or the layout of any record.
-/

namespace AccountChains

/-- A byte string, first byte first. -/
abbrev Bytes := List UInt8

namespace Bytes

/-- How many numbers a count of bytes can hold. -/
def span : (width : Nat) → Nat
  | 0 => 1
  | width + 1 => 256 * span width

/-- The `width` bytes of `value`, least significant first; higher bytes of `value` are dropped. -/
def littleEndian : (width value : Nat) → Bytes
  | 0, _ => []
  | width + 1, value => UInt8.ofNat value :: littleEndian width (value / 256)

/-- The number whose bytes, least significant first, are given. -/
def ofLittleEndian : Bytes → Nat
  | [] => 0
  | byte :: rest => byte.toNat + 256 * ofLittleEndian rest

/-- The `width` bytes of `value`, most significant first; higher bytes of `value` are dropped. -/
def bigEndian (width value : Nat) : Bytes :=
  (littleEndian width value).reverse

/-- The number whose bytes, most significant first, are given. -/
def ofBigEndian (bytes : Bytes) : Nat :=
  ofLittleEndian bytes.reverse

@[simp] theorem length_littleEndian (width value : Nat) :
    (littleEndian width value).length = width := by
  induction width generalizing value with
  | zero => rfl
  | succ width inductionHypothesis => simp [littleEndian, inductionHypothesis]

@[simp] theorem length_bigEndian (width value : Nat) :
    (bigEndian width value).length = width := by
  simp [bigEndian]

theorem span_pos (width : Nat) : 0 < span width := by
  induction width with
  | zero => decide
  | succ width inductionHypothesis => exact Nat.mul_pos (by decide) inductionHypothesis

theorem span_eq_pow (width : Nat) : span width = Nat.pow 2 (8 * width) := by
  induction width with
  | zero => rfl
  | succ width inductionHypothesis =>
    rw [span, inductionHypothesis, Nat.mul_comm]
    exact (Nat.pow_add 2 (8 * width) 8).symm

theorem ofLittleEndian_littleEndian (width value : Nat) :
    ofLittleEndian (littleEndian width value) = value % span width := by
  induction width generalizing value with
  | zero => simp [littleEndian, ofLittleEndian, span, Nat.mod_one]
  | succ width inductionHypothesis =>
    have low : (UInt8.ofNat value).toNat = value % 256 := UInt8.toNat_ofNat'
    rw [littleEndian, ofLittleEndian, inductionHypothesis, low, span, Nat.mod_mul]

theorem ofBigEndian_bigEndian (width value : Nat) :
    ofBigEndian (bigEndian width value) = value % span width := by
  simp [ofBigEndian, bigEndian, ofLittleEndian_littleEndian]

theorem ofLittleEndian_lt (bytes : Bytes) : ofLittleEndian bytes < span bytes.length := by
  induction bytes with
  | nil => simp [ofLittleEndian, span]
  | cons byte rest inductionHypothesis =>
    have small : byte.toNat < 256 := byte.toNat_lt
    simp only [ofLittleEndian, List.length_cons, span]
    omega

theorem ofBigEndian_lt (bytes : Bytes) : ofBigEndian bytes < span bytes.length := by
  simpa [ofBigEndian] using ofLittleEndian_lt bytes.reverse

theorem littleEndian_ofLittleEndian (bytes : Bytes) :
    littleEndian bytes.length (ofLittleEndian bytes) = bytes := by
  induction bytes with
  | nil => rfl
  | cons byte rest inductionHypothesis =>
    have small : byte.toNat < 256 := byte.toNat_lt
    have high : (byte.toNat + 256 * ofLittleEndian rest) / 256 = ofLittleEndian rest := by omega
    have low : UInt8.ofNat (byte.toNat + 256 * ofLittleEndian rest) = byte := by
      apply UInt8.toNat_inj.mp
      rw [UInt8.toNat_ofNat']
      omega
    simp only [List.length_cons, ofLittleEndian, littleEndian, high, low, inductionHypothesis]

theorem bigEndian_ofBigEndian (bytes : Bytes) :
    bigEndian bytes.length (ofBigEndian bytes) = bytes := by
  have reversed := littleEndian_ofLittleEndian bytes.reverse
  rw [List.length_reverse] at reversed
  simp [bigEndian, ofBigEndian, reversed]

/-- The bytes of a word, most significant first. -/
def ofWord (width : Nat) (word : BitVec (8 * width)) : Bytes := bigEndian width word.toNat

/-- The word with the given bytes, most significant first. -/
def toWord (width : Nat) (bytes : Bytes) : BitVec (8 * width) :=
  BitVec.ofNat (8 * width) (ofBigEndian bytes)

@[simp] theorem length_ofWord (width : Nat) (word : BitVec (8 * width)) :
    (ofWord width word).length = width :=
  length_bigEndian width word.toNat

@[simp] theorem toWord_ofWord (width : Nat) (word : BitVec (8 * width)) :
    toWord width (ofWord width word) = word := by
  have small : word.toNat < span width := span_eq_pow width ▸ word.isLt
  rw [toWord, ofWord, ofBigEndian_bigEndian, Nat.mod_eq_of_lt small, BitVec.ofNat_toNat,
    BitVec.setWidth_eq]

theorem ofWord_toWord {width : Nat} {bytes : Bytes} (exact : bytes.length = width) :
    ofWord width (toWord width bytes) = bytes := by
  subst exact
  have small := span_eq_pow bytes.length ▸ ofBigEndian_lt bytes
  rw [ofWord, toWord, BitVec.toNat_ofNat]
  exact (congrArg (bigEndian bytes.length) (Nat.mod_eq_of_lt small)).trans
    (bigEndian_ofBigEndian bytes)

def field (bytes : Bytes) (place width : Nat) : Bytes := (bytes.drop place).take width

end Bytes

end AccountChains
